import Mathlib.Logic.Relation
import RuleTransducer.Proofs.Registration

/-! Layers. A graph of rules lies in layers by the input consumed: every edge leads one code
point further, from a vertex that is not terminal to one that is not initial. Threading a rule
keeps this and leads to every vertex that it adds, since each edge starts where the one before
it ends. So whatever calls register rules, and wherever they fail, every vertex is reached from
the root, no path comes back to a vertex, and nothing leaves a terminal one. -/

namespace RuleTransducer

variable {α : Type}

theorem Vertex.status_afterStep (consumed : Text) (emitted : α) (closing : Bool) :
    (afterStep consumed emitted closing).status = .transitional ∨
      (afterStep consumed emitted closing).status = .terminal := by
  cases closing
  · exact .inl rfl
  · exact .inr rfl

namespace Edge.Layered

variable {e : Edge α} (h : e.Layered)
include h

theorem consumed : e.target.consumed = e.source.consumed ++ e.label.input :=
  congrArg Vertex.consumed h.target

theorem emitted : e.target.emitted = e.label.output := congrArg Vertex.emitted h.target

theorem target_status : e.target.status = .transitional ∨ e.target.status = .terminal := by
  rw [h.target]
  exact Vertex.status_afterStep _ _ _

theorem target_status_ne : e.target.status ≠ .initial := by
  obtain htarget | htarget := h.target_status <;> simp [htarget]

theorem source_status : e.source.status ≠ .terminal := by
  have hsource := h.source
  simpa only [Vertex.isTerminal, decide_eq_false_iff_not] using hsource

/-- A layered edge leads one code point further. -/
theorem length_consumed : e.target.consumed.length = e.source.consumed.length + 1 := by
  obtain ⟨c, hc⟩ := h.input
  rw [h.consumed, hc, Text.length_append, Text.length_singleton]

end Edge.Layered

namespace Graph

/-- Whether an edge of a graph leads from one vertex to another. -/
def Adjacent (g : Graph α) (v w : Vertex α) : Prop := ∃ e ∈ g.edges, e.source = v ∧ e.target = w

/-- A graph in layers that holds its root and of which every vertex is reached from there. -/
structure Trimmed (g : Graph α) : Prop where
  layered : ∀ e ∈ g.edges, e.Layered
  ends : g.HoldsEnds
  root_mem : g.root ∈ g.vertices
  reached : ∀ v ∈ g.vertices, Relation.ReflTransGen g.Adjacent g.root v

theorem Grows.adjacent {g g' : Graph α} (h : g.Grows g') {v w : Vertex α} (hvw : g.Adjacent v w) :
    g'.Adjacent v w := by
  obtain ⟨e, he, hends⟩ := hvw
  exact ⟨e, h.mem_edges he, hends⟩

theorem trimmed_rooted (root : Vertex α) : (rooted root).Trimmed where
  layered e he := absurd he List.not_mem_nil
  ends := holdsEnds_rooted root
  root_mem := List.mem_singleton_self root
  reached v hv := by
    obtain rfl : v = root := List.mem_singleton.mp hv
    exact .refl

/-! ### Threading keeps a graph trimmed -/

section Threading
variable [BEq α] [LawfulBEq α] {g : Graph α}

/-- An insertion behind a vertex of the graph leads to the vertex that it adds. -/
theorem Trimmed.addEdge (hg : g.Trimmed) {e : Edge α} (he : e.Layered)
    (hsource : e.source ∈ g.vertices) : (g.addEdge e).1.Trimmed := by
  have hgrows := grows_addEdge g e
  have hold (v : Vertex α) (hv : v ∈ g.vertices) :
      Relation.ReflTransGen (g.addEdge e).1.Adjacent g.root v :=
    Relation.ReflTransGen.mono (fun _ _ h => hgrows.adjacent h) _ _ (hg.reached v hv)
  refine ⟨?_, hg.ends.addEdge e, ?_, ?_⟩
  · intro f hf
    obtain hf | rfl := mem_edges_addEdge.mp hf
    · exact hg.layered f hf
    · exact he
  · rw [hgrows.root]
    exact hgrows.vertices.mem hg.root_mem
  · intro v hv
    rw [hgrows.root]
    obtain hv | rfl | rfl := (mem_vertices_addEdge hg.ends).mp hv
    · exact hold v hv
    · exact hold e.source hsource
    · have hlast : (g.addEdge e).1.Adjacent e.source e.target :=
        ⟨e, mem_edges_addEdge.mpr (.inr rfl), rfl, rfl⟩
      exact (hold e.source hsource).tail hlast

variable [Fragment α]

/-- A chain that starts at a vertex of the graph leads to every vertex that it adds. -/
theorem Trimmed.addEdges_chain (hg : g.Trimmed) {v : Vertex α} (hv : v ∈ g.vertices)
    {consumed : Text} {steps : List Step} (h : ∀ e ∈ chain v consumed steps, e.Layered) :
    (g.addEdges (chain v consumed steps)).Trimmed := by
  induction steps generalizing g v consumed with
  | nil => exact hg
  | cons step steps ih =>
    obtain ⟨hfirst, hrest⟩ := List.forall_mem_cons.mp h
    refine ih (hg.addEdge hfirst hv) ?_ hrest
    rw [mem_vertices_addEdge hg.ends]
    exact .inr (.inr rfl)

theorem Trimmed.buildRules (hg : g.Trimmed) (hroot : g.root = .root) (rules : List Rule) :
    (g.buildRules rules).Trimmed := by
  induction rules generalizing g with
  | nil => exact hg
  | cons rule rules ih =>
    refine ih (g := g.build rule) ?_ ((grows_build g rule).root.trans hroot)
    rw [build_eq]
    refine hg.addEdges_chain hg.root_mem ?_
    rw [hroot]
    intro e he
    exact layered_of_mem_chain rule.onlyLastCloses_plan rfl he

end Threading

/-! ### What a trimmed graph is like -/

section Shape
variable {g : Graph α}

/-- No edge leads to an initial vertex. -/
theorem Trimmed.not_adjacent_initial (hg : g.Trimmed) {v w : Vertex α} (hw : w.status = .initial) :
    ¬g.Adjacent v w := by
  rintro ⟨e, he, rfl, rfl⟩
  exact (hg.layered e he).target_status_ne hw

/-- An initial vertex is reached only if it is the root. -/
theorem Trimmed.eq_root_of_initial (hg : g.Trimmed) {v : Vertex α} (hv : v ∈ g.vertices)
    (hinitial : v.status = .initial) : v = g.root := by
  obtain rfl | ⟨w, -, hlast⟩ := Relation.ReflTransGen.cases_tail_iff _ _ _ |>.mp (hg.reached v hv)
  · rfl
  · exact absurd hlast (hg.not_adjacent_initial hinitial)

theorem Trimmed.length_consumed_lt (hg : g.Trimmed) {v w : Vertex α}
    (h : Relation.TransGen g.Adjacent v w) : v.consumed.length < w.consumed.length := by
  have hstep {v w : Vertex α} (h : g.Adjacent v w) : v.consumed.length < w.consumed.length := by
    obtain ⟨e, he, rfl, rfl⟩ := h
    have hlength := (hg.layered e he).length_consumed
    omega
  induction h with
  | single hlast => exact hstep hlast
  | tail _ hlast ih => exact Nat.lt_trans ih (hstep hlast)

theorem Trimmed.acyclic (hg : g.Trimmed) (v : Vertex α) : ¬Relation.TransGen g.Adjacent v v := by
  intro hv
  exact Nat.lt_irrefl _ (hg.length_consumed_lt hv)

theorem Trimmed.not_adjacent_of_terminal (hg : g.Trimmed) {v : Vertex α}
    (hv : v.status = .terminal) (w : Vertex α) : ¬g.Adjacent v w := by
  rintro ⟨e, he, rfl, -⟩
  exact (hg.layered e he).source_status hv

end Shape

theorem trimmed_of_threads {g : Graph Text} {rules completed : List Rule}
    (h : Threads empty g rules completed) : g.Trimmed := by
  rw [h.graph]
  exact (trimmed_rooted .root).buildRules rfl rules

/-- After any run of calls that register rules over texts, failed calls among them, every edge
consumes one code point and leads to the next layer, from no terminal vertex to no initial one;
the root is the one initial vertex and no edge leads to it; every vertex is reached from the
root, no path comes back to where it starts, and no edge leaves a terminal vertex. -/
theorem trimmed_registerAll (calls : List Registration) (h : ∀ call ∈ calls, call.IsTextual) :
    let g := ((empty : Graph Text).registerAll calls).1
    (∀ e ∈ g.edges, (∃ c, e.label.input = Text.singleton c) ∧
      e.target.consumed = e.source.consumed ++ e.label.input ∧
      e.target.emitted = e.label.output ∧
      (e.target.status = .transitional ∨ e.target.status = .terminal) ∧
      e.source.status ≠ .terminal) ∧
    (g.root ∈ g.vertices ∧ ∀ v ∈ g.vertices, v.status = .initial ↔ v = g.root) ∧
    (∀ v, ¬g.Adjacent v g.root) ∧
    (∀ v ∈ g.vertices, Relation.ReflTransGen g.Adjacent g.root v) ∧
    (∀ v, ¬Relation.TransGen g.Adjacent v v) ∧
    ∀ v, v.status = .terminal → ∀ w, ¬g.Adjacent v w := by
  intro g
  obtain ⟨rules, hthreads⟩ := exists_threads_registerAll (empty : Graph Text) h
  have hg : g.Trimmed := trimmed_of_threads hthreads
  have hroot : g.root.status = .initial := congrArg Vertex.status hthreads.root
  refine ⟨?_, ⟨hg.root_mem, ?_⟩, ?_, hg.reached, hg.acyclic, ?_⟩
  · intro e he
    have hlayered := hg.layered e he
    exact ⟨hlayered.input, hlayered.consumed, hlayered.emitted, hlayered.target_status,
      hlayered.source_status⟩
  · intro v hv
    constructor
    · exact hg.eq_root_of_initial hv
    · rintro rfl
      exact hroot
  · intro v
    exact hg.not_adjacent_initial hroot
  · intro v hv
    exact hg.not_adjacent_of_terminal hv

/-- A rule, one that shares its edges and stops at an insertion behind them, and a value with
a rule among others that are none. -/
def haltingCalls : List Registration :=
  [.add (.list [.tuple [.text "a", .text "xy"], .text "b"]),
    .build (.list [.tuple [.text "a", .text "xy"], .text "c", .tuple [.text "", .text "z"]]),
    .buildEach (.list [.list [.text "a"], .list [.int 3], .list [.text "d"]])]

theorem trimmed_registerAll_haltingCalls :
    (∀ call ∈ haltingCalls, call.IsTextual) ∧
      ∃ v ∈ ((empty : Graph Text).registerAll haltingCalls).1.vertices,
        v = ⟨"ac", "c", .transitional⟩ ∧
        Relation.ReflTransGen ((empty : Graph Text).registerAll haltingCalls).1.Adjacent .root v ∧
        ¬Relation.TransGen ((empty : Graph Text).registerAll haltingCalls).1.Adjacent v v := by
  have h : ∀ call ∈ haltingCalls, call.IsTextual := by
    simp [haltingCalls, Registration.IsTextual, Datum.IsTextual, Datum.elements?]
  obtain ⟨-, -, -, hreached, hacyclic, -⟩ := trimmed_registerAll haltingCalls h
  have hmem : (⟨"ac", "c", .transitional⟩ : Vertex Text) ∈
      ((empty : Graph Text).registerAll haltingCalls).1.vertices := by decide
  exact ⟨h, _, hmem, rfl, hreached _ hmem, hacyclic _⟩

end Graph

end RuleTransducer
