import Mathlib.Data.List.Perm.Basic
import RuleTransducer.Proofs.Admission

/-! Reordering. What compiled rules hold is told by the set of the rules, so compiling them in
another order gives the same vertices and edges, inserted in another order. The traversal goes
through the edges of a vertex in the order of their insertion and at every vertex on the way
through all of them, so another order of the edges gives the same outputs in another order. -/

namespace RuleTransducer.Graph

variable {α : Type}

/-! ### Edges in another order -/

section Edges
variable {g g' : Graph α}

/-- Where the edges are the same up to their order, so are the accepting paths. -/
theorem perm_paths [BEq α] (h : g.edges.Perm g'.edges) (v : Vertex α) (input : List CodePoint) :
    (g.paths v input).Perm (g'.paths v input) := by
  induction input generalizing v with
  | nil => exact List.Perm.refl _
  | cons c rest ih =>
    have hout : (g.outEdgesOn v (Text.singleton c)).Perm
        (g'.outEdgesOn v (Text.singleton c)) := h.filter _
    apply hout.flatMap
    intro e _
    exact (ih e.target).map (e :: ·)

theorem perm_transduceFrom [BEq α] [Fragment α] (h : g.edges.Perm g'.edges) (start : Vertex α)
    (text : Text) : (g.transduceFrom start text).Perm (g'.transduceFrom start text) := by
  rw [transduceFrom_eq_map_paths, transduceFrom_eq_map_paths]
  exact (perm_paths h start text.toList).map _

theorem stats_eq_of_perm (hvertices : g.vertices.Perm g'.vertices)
    (hedges : g.edges.Perm g'.edges) : g.stats = g'.stats := by
  have hterminals : g.terminals.Perm g'.terminals := hvertices.filter _
  rw [stats, stats, hvertices.length_eq, hedges.length_eq, hterminals.length_eq]

end Edges

/-! ### Rules in another order -/

section Rules
variable [BEq α] [LawfulBEq α] [Fragment α] {g : Graph α} {rules rules' : List Rule}

theorem perm_edges_buildRules (hg : g.edges.Nodup) (h : rules.Perm rules') :
    (g.buildRules rules).edges.Perm (g.buildRules rules').edges := by
  apply (List.perm_ext_iff_of_nodup (nodup_edges_buildRules hg rules)
    (nodup_edges_buildRules hg rules')).mpr
  intro e
  simp only [mem_edges_buildRules, h.mem_iff]

theorem perm_vertices_buildRules (hg : g.vertices.Nodup) (hends : g.HoldsEnds)
    (h : rules.Perm rules') :
    (g.buildRules rules).vertices.Perm (g.buildRules rules').vertices := by
  apply (List.perm_ext_iff_of_nodup (nodup_vertices_buildRules hg rules)
    (nodup_vertices_buildRules hg rules')).mpr
  intro v
  simp only [mem_vertices_buildRules hends, h.mem_iff]

end Rules

/-- Valid rules over texts compile. Rules that compile do so in any order, to the same vertices
and edges up to their order and to the same size, and every text has the same outputs up to
their order, each as often. -/
theorem perm_of_compile? {declared declared' : List Datum} (h : declared.Perm declared') :
    ((∀ rule ∈ declared, rule.materialised.validate.isValid = true ∧ rule.IsTextual) →
      ∃ g, compile? declared = .ok g) ∧
    ∀ g, compile? declared = .ok g →
      ∃ g', compile? declared' = .ok g' ∧ g.vertices.Perm g'.vertices ∧ g.edges.Perm g'.edges ∧
        g.stats = g'.stats ∧ ∀ text, (g.transduce text).Perm (g'.transduce text) := by
  constructor
  · exact exists_compile?_of_isValid
  · intro g hcompile
    have hadmissible := exists_compile?_iff.mp ⟨g, hcompile⟩
    obtain ⟨g', hcompile'⟩ : ∃ g', compile? declared' = .ok g' := by
      apply exists_compile?_iff.mpr
      intro rule hrule
      exact hadmissible rule (h.mem_iff.mpr hrule)
    obtain ⟨rules, hrules, hg⟩ := exists_threads_of_compile? hcompile
    obtain ⟨rules', hrules', hg'⟩ := exists_threads_of_compile? hcompile'
    have hperm : rules.Perm rules' := perm_of_mapM h hrules hrules'
    have hvertices : g.vertices.Perm g'.vertices := by
      rw [hg.graph, hg'.graph]
      exact perm_vertices_buildRules (List.nodup_singleton _) (holdsEnds_rooted _) hperm
    have hedges : g.edges.Perm g'.edges := by
      rw [hg.graph, hg'.graph]
      exact perm_edges_buildRules List.nodup_nil hperm
    refine ⟨g', hcompile', hvertices, hedges, stats_eq_of_perm hvertices hedges, ?_⟩
    intro text
    rw [transduce, transduce, hg.root, hg'.root]
    exact perm_transduceFrom hedges _ text

/-- Two rules that emit alike in the middle and differ at both ends. -/
def braided : List Datum :=
  [.list [.tuple [.text "a", .text "x"], .text "b", .tuple [.text "c", .text "y"]],
    .list [.tuple [.text "a", .text "p"], .text "b", .tuple [.text "c", .text "q"]]]

/-- The other order gives the same four outputs in another order. -/
theorem perm_of_compile?_braided :
    braided.Perm braided.reverse ∧
      ∃ g g', compile? braided = .ok g ∧ compile? braided.reverse = .ok g' ∧
        g.edges.Perm g'.edges ∧ g.stats = g'.stats ∧
        (g.transduce "abc").Perm (g'.transduce "abc") ∧
        g.transduce "abc" = ["xby", "xbq", "pby", "pbq"] ∧
        g'.transduce "abc" = ["pbq", "pby", "xbq", "xby"] := by
  have hperm : braided.Perm braided.reverse := (List.reverse_perm braided).symm
  obtain ⟨g, hg⟩ : ∃ g, compile? braided = .ok g := ⟨_, rfl⟩
  obtain ⟨g', hg', -, hedges, hstats, houtputs⟩ := (perm_of_compile? hperm).2 g hg
  refine ⟨hperm, g, g', hg, hg', hedges, hstats, houtputs "abc", ?_, ?_⟩
  · cases hg
    rw [transduce, transduceFrom_eq_walk]
    decide
  · cases hg'
    rw [transduce, transduceFrom_eq_walk]
    decide

end RuleTransducer.Graph
