import RuleTransducer.Proofs.Discovery
import RuleTransducer.Proofs.Tables

/-! Traversal of concatenated inputs. The search goes over the boundary between two inputs without
a stop, with branches before it and behind it open at once, also along a cycle. But an accepting
path over both is a way over the first input and an accepting path over the second from where the
way ends, and such paths come up way by way. So a traversal of both inputs is the traversals of the
second one from the vertices that the first one leads to, each behind what was produced up to
there. -/

namespace RuleTransducer.Graph

variable {α : Type} [BEq α] [Fragment α]

/-! ### Paths over two inputs -/

omit [Fragment α] in
/-- By induction on the first input: the ways that begin with an edge are those of its target, and
so are the paths. -/
theorem paths_append (g : Graph α) (v : Vertex α) (a b : List CodePoint) :
    g.paths v (a ++ b) =
      (g.ways v a).flatMap fun p => (g.paths (goal v p) b).map fun q => p ++ q := by
  induction a generalizing v with
  | nil => simp [ways, goal]
  | cons c a ih =>
    rw [List.cons_append, paths, ways, List.flatMap_assoc]
    refine congrArg (List.flatMap · _) (funext fun e => ?_)
    rw [ih, List.map_flatMap, List.flatMap_map]
    simp only [List.map_map]
    rfl

omit [BEq α] in
/-- What a run of edges writes. -/
def output (p : List (Edge α)) : Text := Text.join ((emitted p).map Fragment.written)

omit [BEq α] in
theorem output_append (p q : List (Edge α)) : output (p ++ q) = output p ++ output q := by
  simp [output, emitted, Text.join_append]

/-- The traversal of two inputs behind each other is the traversals of the second one from where the
ways over the first one end, each behind what is produced on the way. -/
theorem transduceFrom_append (g : Graph α) (start : Vertex α) (a b : Text) :
    g.transduceFrom start (a ++ b) =
      (g.ways start a.toList).flatMap fun p =>
        (g.transduceFrom (goal start p) b).map fun text => output p ++ text := by
  rw [transduceFrom_eq_map_paths, Text.toList_append, paths_append, List.map_flatMap]
  refine congrArg (List.flatMap · _) (funext fun p => ?_)
  rw [transduceFrom_eq_map_paths, List.map_map, List.map_map]
  exact List.map_congr_left fun q _ => output_append p q

/-! ### Graphs of added parts -/

/-- In a graph of any added vertices and edges, a traversal of two inputs behind each other is, way
by way over the first one, the traversal of the second one from the vertex that the way leads to,
with what the way produces put before every output. The ways are all that there are, and where two
of them fork, the one whose edge was inserted first comes first. -/
theorem transduceFrom_append_addAll [LawfulBEq α] (root : Vertex α) (additions : List (Addition α))
    (start : Vertex α) (a b : Text) :
    let g := (rooted root).addAll additions
    (∀ p, p ∈ g.ways start a.toList ↔ g.Leads start a.toList p) ∧
      ((g.ways start a.toList).Pairwise fun p q =>
        ∃ e f, Forks p q e f ∧ [e, f].Sublist g.edges) ∧
      g.transduceFrom start (a ++ b) =
        (g.ways start a.toList).flatMap fun p =>
          (g.transduceFrom (goal start p) b).map fun text => output p ++ text := by
  intro g
  have hnodup : g.edges.Nodup := nodup_edges_addAll List.nodup_nil additions
  have horder : g.edges.Pairwise fun e f => [e, f].Sublist g.edges :=
    List.pairwise_of_forall_sublist fun h => h
  exact ⟨fun p => mem_ways_iff, pairwise_ways hnodup horder start a.toList,
    transduceFrom_append g start a b⟩

/-- A terminal root with an edge to itself and one to another vertex for the same code point: the
second input is read from both of them, and only the root has an edge for it. -/
theorem transduceFrom_append_addAll_loop :
    let root : Vertex Text := ⟨"", "", .terminal⟩
    let far : Vertex Text := ⟨"a", "y", .terminal⟩
    let g := (rooted root).addAll
      [.edge ⟨root, root, ⟨"a", "x"⟩⟩, .vertex far, .edge ⟨root, far, ⟨"a", "y"⟩⟩]
    (g.ways root ['a']).map (goal root) = [root, far] ∧ g.transduceFrom far "a" = [] ∧
      g.transduceFrom root ("a" ++ "a") = ["xx", "xy"] := by
  intro root far g
  refine ⟨by decide, ?_, ?_⟩
  · rw [transduceFrom_eq_walk]
    decide
  · rw [(transduceFrom_append_addAll root _ root "a" "a").2.2]
    simp only [transduceFrom_eq_walk]
    decide

end RuleTransducer.Graph
