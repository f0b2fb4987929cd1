import Mathlib.Data.List.Nodup
import RuleTransducer.Graph.Threading

/-! Growth of a graph. Inserting an edge adds it with its ends or changes nothing, so what
a graph holds stays in place whatever is inserted later, and after a run of insertions the
graph holds its old edges and the inserted ones, each once. -/

namespace RuleTransducer

variable {α : Type}

/-! ### Appending what is new -/

section AppendNew
variable {β : Type} [BEq β] [LawfulBEq β] {l : List β} {a b : β}

theorem mem_appendNew : b ∈ (if l.contains a then l else l ++ [a]) ↔ b ∈ l ∨ b = a := by
  split
  case isTrue h =>
    have ha : a ∈ l := List.contains_iff_mem.mp h
    exact ⟨.inl, fun h => h.elim id fun heq => heq ▸ ha⟩
  case isFalse => rw [List.mem_append, List.mem_singleton]

theorem nodup_appendNew (h : l.Nodup) (a : β) :
    (if l.contains a then l else l ++ [a]).Nodup := by
  split
  case isTrue => exact h
  case isFalse hnew =>
    refine List.nodup_append.mpr ⟨h, List.nodup_singleton a, ?_⟩
    rintro old hold _ hadded rfl
    rw [List.mem_singleton.mp hadded] at hold
    exact hnew (List.contains_iff_mem.mpr hold)

/-- The first occurrences of the elements of a list, with one more element behind it. -/
theorem eraseDups_append_singleton (l : List β) (a : β) :
    (l ++ [a]).eraseDups = if l.contains a then l.eraseDups else l.eraseDups ++ [a] := by
  rw [List.eraseDups_append, List.removeAll, List.filter_singleton, List.elem_eq_contains]
  cases l.contains a with
  | true => exact List.append_nil _
  | false => rfl

end AppendNew

namespace Graph

/-- A graph that keeps the root of another and holds its vertices and edges first. -/
structure Grows (g g' : Graph α) : Prop where
  root : g'.root = g.root
  vertices : g.vertices <+: g'.vertices
  edges : g.edges <+: g'.edges

theorem Grows.refl (g : Graph α) : g.Grows g :=
  ⟨rfl, List.prefix_refl _, List.prefix_refl _⟩

theorem Grows.trans {g g' g'' : Graph α} (h : g.Grows g') (h' : g'.Grows g'') : g.Grows g'' :=
  ⟨h'.root.trans h.root, h.vertices.trans h'.vertices, h.edges.trans h'.edges⟩

theorem Grows.mem_edges {g g' : Graph α} (h : g.Grows g') {e : Edge α} (he : e ∈ g.edges) :
    e ∈ g'.edges := h.edges.mem he

/-! ### One insertion -/

section Insertion
variable [BEq α]

theorem grows_addVertex (g : Graph α) (v : Vertex α) : g.Grows (g.addVertex v) := by
  unfold addVertex
  split
  · exact Grows.refl g
  · exact ⟨rfl, List.prefix_append _ _, List.prefix_refl _⟩

@[simp] theorem edges_addVertex (g : Graph α) (v : Vertex α) : (g.addVertex v).edges = g.edges := by
  unfold addVertex
  split <;> rfl

theorem grows_addEdge (g : Graph α) (e : Edge α) : g.Grows (g.addEdge e).1 := by
  unfold addEdge
  split
  · exact Grows.refl g
  · have hends := (grows_addVertex g e.source).trans (grows_addVertex _ e.target)
    exact ⟨hends.root, hends.vertices, hends.edges.trans (List.prefix_append _ _)⟩

theorem edges_addEdge (g : Graph α) (e : Edge α) :
    (g.addEdge e).1.edges = if g.edges.contains e then g.edges else g.edges ++ [e] := by
  unfold addEdge
  split <;> simp

theorem mem_edges_addEdge [LawfulBEq α] {g : Graph α} {e e' : Edge α} :
    e' ∈ (g.addEdge e).1.edges ↔ e' ∈ g.edges ∨ e' = e := by
  rw [edges_addEdge, mem_appendNew]

theorem nodup_edges_addEdge [LawfulBEq α] {g : Graph α} (h : g.edges.Nodup) (e : Edge α) :
    (g.addEdge e).1.edges.Nodup := by
  rw [edges_addEdge]
  exact nodup_appendNew h e

end Insertion

/-! ### Runs of insertions -/

section Run
variable [BEq α]

/-- Inserts edges one after another. -/
def addEdges (g : Graph α) (es : List (Edge α)) : Graph α := es.foldl (fun g e => (g.addEdge e).1) g

@[simp] theorem addEdges_nil (g : Graph α) : g.addEdges [] = g := rfl

@[simp] theorem addEdges_cons (g : Graph α) (e : Edge α) (es : List (Edge α)) :
    g.addEdges (e :: es) = (g.addEdge e).1.addEdges es := rfl

theorem addEdges_append (g : Graph α) (es later : List (Edge α)) :
    g.addEdges (es ++ later) = (g.addEdges es).addEdges later := List.foldl_append

theorem grows_addEdges (g : Graph α) (es : List (Edge α)) : g.Grows (g.addEdges es) := by
  induction es generalizing g with
  | nil => exact Grows.refl g
  | cons e es ih => exact (grows_addEdge g e).trans (ih _)

theorem mem_edges_addEdges [LawfulBEq α] {g : Graph α} {es : List (Edge α)} {e : Edge α} :
    e ∈ (g.addEdges es).edges ↔ e ∈ g.edges ∨ e ∈ es := by
  induction es generalizing g with
  | nil => simp
  | cons f es ih => rw [addEdges_cons, ih, mem_edges_addEdge, List.mem_cons, or_assoc]

theorem nodup_edges_addEdges [LawfulBEq α] {g : Graph α} (h : g.edges.Nodup) (es : List (Edge α)) :
    (g.addEdges es).edges.Nodup := by
  induction es generalizing g with
  | nil => exact h
  | cons e es ih => exact ih (nodup_edges_addEdge h e)

end Run

/-! ### Vertices -/

section Vertices
variable [BEq α]

theorem vertices_addVertex (g : Graph α) (v : Vertex α) :
    (g.addVertex v).vertices = if g.vertices.contains v then g.vertices else g.vertices ++ [v] := by
  unfold addVertex
  split <;> rfl

/-- A new edge comes with its ends. -/
theorem vertices_addEdge (g : Graph α) (e : Edge α) :
    (g.addEdge e).1.vertices =
      if g.edges.contains e then g.vertices
      else ((g.addVertex e.source).addVertex e.target).vertices := by
  unfold addEdge
  split <;> rfl

/-- Whether a graph holds the ends of its edges. -/
def HoldsEnds (g : Graph α) : Prop := ∀ e ∈ g.edges, e.source ∈ g.vertices ∧ e.target ∈ g.vertices

omit [BEq α] in
theorem holdsEnds_rooted (root : Vertex α) : (rooted root).HoldsEnds :=
  fun _ he => absurd he List.not_mem_nil

variable [LawfulBEq α] {g : Graph α}

theorem mem_vertices_addVertex {v w : Vertex α} :
    w ∈ (g.addVertex v).vertices ↔ w ∈ g.vertices ∨ w = v := by
  rw [vertices_addVertex, mem_appendNew]

theorem mem_vertices_addEdge (hg : g.HoldsEnds) {e : Edge α} {v : Vertex α} :
    v ∈ (g.addEdge e).1.vertices ↔ v ∈ g.vertices ∨ v = e.source ∨ v = e.target := by
  rw [vertices_addEdge]
  split
  case isTrue h =>
    obtain ⟨hsource, htarget⟩ := hg e (List.contains_iff_mem.mp h)
    constructor
    · exact .inl
    · rintro (hv | rfl | rfl)
      · exact hv
      · exact hsource
      · exact htarget
  case isFalse => rw [mem_vertices_addVertex, mem_vertices_addVertex, or_assoc]

theorem HoldsEnds.addEdge (hg : g.HoldsEnds) (e : Edge α) : (g.addEdge e).1.HoldsEnds := by
  intro e' he'
  rw [mem_vertices_addEdge hg, mem_vertices_addEdge hg]
  obtain hold | rfl := mem_edges_addEdge.mp he'
  · exact ⟨.inl (hg e' hold).1, .inl (hg e' hold).2⟩
  · exact ⟨.inr (.inl rfl), .inr (.inr rfl)⟩

theorem nodup_vertices_addVertex (h : g.vertices.Nodup) (v : Vertex α) :
    (g.addVertex v).vertices.Nodup := by
  rw [vertices_addVertex]
  exact nodup_appendNew h v

theorem nodup_vertices_addEdge (h : g.vertices.Nodup) (e : Edge α) :
    (g.addEdge e).1.vertices.Nodup := by
  rw [vertices_addEdge]
  split
  · exact h
  · exact nodup_vertices_addVertex (nodup_vertices_addVertex h e.source) e.target

theorem HoldsEnds.addEdges (hg : g.HoldsEnds) (es : List (Edge α)) : (g.addEdges es).HoldsEnds := by
  induction es generalizing g with
  | nil => exact hg
  | cons e es ih => exact ih (hg.addEdge e)

/-- A run of insertions adds the ends of the inserted edges. -/
theorem mem_vertices_addEdges (hg : g.HoldsEnds) {es : List (Edge α)} {v : Vertex α} :
    v ∈ (g.addEdges es).vertices ↔ v ∈ g.vertices ∨ ∃ e ∈ es, v = e.source ∨ v = e.target := by
  induction es generalizing g with
  | nil => simp
  | cons e es ih =>
    rw [addEdges_cons, ih (hg.addEdge e), mem_vertices_addEdge hg, List.exists_mem_cons_iff,
      or_assoc]

theorem nodup_vertices_addEdges (h : g.vertices.Nodup) (es : List (Edge α)) :
    (g.addEdges es).vertices.Nodup := by
  induction es generalizing g with
  | nil => exact h
  | cons e es ih => exact ih (nodup_vertices_addEdge h e)

end Vertices

end Graph

end RuleTransducer
