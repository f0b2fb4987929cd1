import RuleTransducer.Proofs.Paths

/-! Discovery. Two accepting paths over one text are the same up to the vertex where they fork.
A traversal takes the edges of that vertex in the order of the graph, so it finds the path
first whose edge comes first there. -/

namespace RuleTransducer

variable {α : Type}

namespace Graph

/-! ### Forks -/

/-- Whether two paths are the same up to a place and go on with two different edges there. -/
def Forks (p q : List (Edge α)) (e f : Edge α) : Prop :=
  e ≠ f ∧ ∃ common p' q', p = common ++ e :: p' ∧ q = common ++ f :: q'

theorem Forks.cons {p q : List (Edge α)} {e f : Edge α} (h : Forks p q e f) (first : Edge α) :
    Forks (first :: p) (first :: q) e f := by
  obtain ⟨hne, common, p', q', rfl, rfl⟩ := h
  exact ⟨hne, first :: common, p', q', rfl, rfl⟩

theorem Forks.swap {p q : List (Edge α)} {e f : Edge α} (h : Forks p q e f) : Forks q p f e := by
  obtain ⟨hne, common, p', q', hp, hq⟩ := h
  exact ⟨hne.symm, common, q', p', hq, hp⟩

/-- In whatever order the edges of a graph are, its ways are in that order where they fork. -/
theorem pairwise_ways [BEq α] {g : Graph α} {R : Edge α → Edge α → Prop} (hnodup : g.edges.Nodup)
    (h : g.edges.Pairwise R) (v : Vertex α) (input : List CodePoint) :
    (g.ways v input).Pairwise fun p q => ∃ e f, Forks p q e f ∧ R e f := by
  induction input generalizing v with
  | nil => exact List.pairwise_singleton _ _
  | cons c rest ih =>
    rw [ways, List.pairwise_flatMap]
    -- ways along one edge fork behind it, ways along different edges fork at once
    constructor
    · intro e _
      rw [List.pairwise_map]
      refine (ih e.target).imp fun {p q} hpq => ?_
      obtain ⟨a, b, hfork, hR⟩ := hpq
      exact ⟨a, b, hfork.cons e, hR⟩
    · refine ((hnodup.and h).filter _).imp fun {e f} hef => ?_
      intro p hp q hq
      obtain ⟨p', -, rfl⟩ := List.mem_map.mp hp
      obtain ⟨q', -, rfl⟩ := List.mem_map.mp hq
      exact ⟨e, f, ⟨hef.1, [], p', q', rfl, rfl⟩, hef.2⟩

/-- In whatever order the edges of a graph are, its paths are in that order where they fork. -/
theorem pairwise_paths [BEq α] {g : Graph α} {R : Edge α → Edge α → Prop} (hnodup : g.edges.Nodup)
    (h : g.edges.Pairwise R) (v : Vertex α) (input : List CodePoint) :
    (g.paths v input).Pairwise fun p q => ∃ e f, Forks p q e f ∧ R e f := by
  rw [paths_eq_filter_ways]
  exact (pairwise_ways hnodup h v input).filter _

/-! ### Places of paths -/

/-- Whether the output at a place among those of a traversal is the one of a path. -/
structure Finds (g : Graph Text) (text : Text) (i : ℕ) (p : List (Edge Text)) : Prop where
  path : (g.paths g.root text.toList)[i]? = some p
  output : (g.transduce text)[i]? = some (Text.join (emitted p))

/-- Whether a traversal finds one path before another. -/
def FindsBefore (g : Graph Text) (text : Text) (p q : List (Edge Text)) : Prop :=
  ∃ i j, i < j ∧ g.Finds text i p ∧ g.Finds text j q

section Finds
variable {g : Graph Text} {text : Text} {p q : List (Edge Text)}

theorem finds_of_getElem?_paths {i : ℕ} (h : (g.paths g.root text.toList)[i]? = some p) :
    g.Finds text i p := by
  refine ⟨h, ?_⟩
  rw [transduce_eq_map_paths, List.getElem?_map, h, Option.map_some]

theorem exists_finds (h : g.Accepts g.root text.toList p) : ∃ i, g.Finds text i p := by
  obtain ⟨i, hi⟩ := List.mem_iff_getElem?.mp (mem_paths_iff.mpr h)
  exact ⟨i, finds_of_getElem?_paths hi⟩

theorem findsBefore_or (hp : g.Accepts g.root text.toList p) (hq : g.Accepts g.root text.toList q)
    (hne : p ≠ q) : g.FindsBefore text p q ∨ g.FindsBefore text q p := by
  obtain ⟨i, hi⟩ := exists_finds hp
  obtain ⟨j, hj⟩ := exists_finds hq
  obtain hlt | heq | hgt := Nat.lt_trichotomy i j
  · exact .inl ⟨i, j, hlt, hi, hj⟩
  · subst heq
    exact absurd (Option.some.inj (hi.path.symm.trans hj.path)) hne
  · exact .inr ⟨j, i, hgt, hj, hi⟩

/-- Where edges are in an order, a path found before another is before it at their fork. -/
theorem FindsBefore.exists_forks {R : Edge Text → Edge Text → Prop} (hnodup : g.edges.Nodup)
    (hR : g.edges.Pairwise R) (h : g.FindsBefore text p q) :
    ∃ e f, Forks p q e f ∧ R e f := by
  obtain ⟨i, j, hlt, ⟨hp, -⟩, ⟨hq, -⟩⟩ := h
  obtain ⟨hi, rfl⟩ := List.getElem?_eq_some_iff.mp hp
  obtain ⟨hj, rfl⟩ := List.getElem?_eq_some_iff.mp hq
  exact List.pairwise_iff_getElem.mp (pairwise_paths hnodup hR g.root text.toList) i j hi hj hlt

theorem Finds.place_unique (hnodup : g.edges.Nodup) {i j : ℕ} (hi : g.Finds text i p)
    (hj : g.Finds text j p) : i = j := by
  have hlength := (List.getElem?_eq_some_iff.mp hi.path).1
  have hpaths := nodup_paths hnodup g.root text.toList
  exact (List.getElem?_inj hlength hpaths).mp (hi.path.trans hj.path.symm)

theorem FindsBefore.not_swap (hnodup : g.edges.Nodup) (h : g.FindsBefore text p q) :
    ¬g.FindsBefore text q p := by
  rintro ⟨j', i', hlt', hj', hi'⟩
  obtain ⟨i, j, hlt, hi, hj⟩ := h
  have hp := hi.place_unique hnodup hi'
  have hq := hj.place_unique hnodup hj'
  omega

end Finds

end Graph

end RuleTransducer
