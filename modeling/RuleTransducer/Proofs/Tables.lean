import Mathlib.Data.List.Induction
import Mathlib.Data.List.Nodup
import RuleTransducer.Graph.Tables
import RuleTransducer.Proofs.Growth

/-! The tables of a graph stay in step. A list in a table is the part of the insertion record that
belongs to its key, and every insertion keeps it so: a new vertex has no edges yet, and a new edge
goes to the end of the record and to the end of its two lists. So after any additions, in any
order, the tables and the record answer alike, and what they answer is read off the additions:
the edges that were added, each once, in the order of their first addition. -/

namespace RuleTransducer

/-! ### Look-ups in a table -/

namespace Table

variable {κ β : Type} [BEq κ]

theorem map_fst_enter (t : Table κ β) (key : κ) :
    (t.enter key).map Prod.fst =
      if (t.map Prod.fst).contains key then t.map Prod.fst else t.map Prod.fst ++ [key] := by
  unfold enter
  split
  · rfl
  · exact List.map_append

/-- Room for a key holds nothing yet. -/
theorem get_enter (t : Table κ β) (key other : κ) : (t.enter key).get other = t.get other := by
  unfold enter
  split
  · rfl
  · rw [get, get, List.lookup_append]
    cases t.lookup other with
    | some list => rfl
    | none => cases h : other == key <;> simp [List.lookup_cons, h]

variable [LawfulBEq κ]

theorem lookup_add (t : Table κ β) (key other : κ) (b : β) :
    (t.add key b).lookup other =
      (t.lookup other).map fun list => if other == key then list ++ [b] else list := by
  induction t with
  | nil => rfl
  | cons entry t ih =>
    obtain ⟨known, list⟩ := entry
    have hcons : Table.add ((known, list) :: t) key b =
      (known, if known == key then list ++ [b] else list) :: Table.add t key b := rfl
    rw [hcons, List.lookup_cons, List.lookup_cons]
    cases hknown : other == known with
    | true => rw [eq_of_beq hknown]; rfl
    | false => exact ih

/-- What is added under a known key stands last there. -/
theorem get_add {t : Table κ β} {key : κ} (hkey : key ∈ t.map Prod.fst) (other : κ) (b : β) :
    (t.add key b).get other = if other == key then t.get other ++ [b] else t.get other := by
  rw [get, lookup_add, get]
  cases hlookup : t.lookup other with
  | some list => rfl
  | none =>
    have hne : (other == key) = false := by
      obtain ⟨entry, hentry, rfl⟩ := List.mem_map.mp hkey
      simpa using List.lookup_eq_none_iff.mp hlookup entry hentry
    rw [hne]
    rfl

/-- Looking up in a table of a function gives its values. -/
theorem get_map {keys : List κ} {f : κ → List β} {key : κ} (h : key ∉ keys → f key = []) :
    get (keys.map fun known => (known, f known)) key = f key := by
  unfold get
  induction keys with
  | nil => exact (h List.not_mem_nil).symm
  | cons known keys ih =>
    rw [List.map_cons, List.lookup_cons]
    cases hknown : key == known with
    | true => rw [eq_of_beq hknown]; rfl
    | false =>
      refine ih fun hkey => h ?_
      rw [List.mem_cons, not_or]
      exact ⟨ne_of_beq_false hknown, hkey⟩

end Table

variable {α : Type}

/-! ### Additions -/

/-- A part that is added to a graph. -/
inductive Addition (α : Type)
  | vertex (v : Vertex α)
  | edge (e : Edge α)

/-- The edge that is added. -/
def Addition.edge? : Addition α → Option (Edge α)
  | vertex _ => none
  | edge e => some e

section Additions
variable [BEq α]

/-- A graph after additions. -/
def Graph.addAll (g : Graph α) (additions : List (Addition α)) : Graph α :=
  additions.foldl (fun
    | g, .vertex v => g.addVertex v
    | g, .edge e => (g.addEdge e).1) g

/-- The tables after additions. -/
def Tables.addAll (t : Tables α) (additions : List (Addition α)) : Tables α :=
  additions.foldl (fun
    | t, .vertex v => t.addVertex v
    | t, .edge e => (t.addEdge e).1) t

end Additions

/-! ### Tables for a record of insertions -/

section Represents
variable [BEq α]

namespace Graph

theorem outEdges_addVertex (g : Graph α) (v w : Vertex α) :
    (g.addVertex v).outEdges w = g.outEdges w := by
  rw [outEdges, outEdges, edges_addVertex]

theorem outEdgesOn_addVertex (g : Graph α) (v w : Vertex α) (input : Text) :
    (g.addVertex v).outEdgesOn w input = g.outEdgesOn w input := by
  rw [outEdgesOn, outEdgesOn, edges_addVertex]

theorem HoldsEnds.addVertex {g : Graph α} (hg : g.HoldsEnds) (v : Vertex α) :
    (g.addVertex v).HoldsEnds := by
  intro e he
  rw [edges_addVertex] at he
  have hgrows := (grows_addVertex g v).vertices
  exact ⟨hgrows.mem (hg e he).1, hgrows.mem (hg e he).2⟩

variable [LawfulBEq α]

theorem outEdges_append (g : Graph α) (e : Edge α) (v : Vertex α) :
    outEdges { g with edges := g.edges ++ [e] } v =
      if v == e.source then g.outEdges v ++ [e] else g.outEdges v := by
  rw [outEdges, List.filter_append, List.filter_singleton, BEq.comm, outEdges]
  cases v == e.source with
  | true => rfl
  | false => exact List.append_nil _

theorem outEdgesOn_append (g : Graph α) (e : Edge α) (v : Vertex α) (input : Text) :
    outEdgesOn { g with edges := g.edges ++ [e] } v input =
      if (v, input) == (e.source, e.label.input) then g.outEdgesOn v input ++ [e]
      else g.outEdgesOn v input := by
  have hkey : ((v, input) == (e.source, e.label.input)) =
      (e.source == v && e.label.input == input) := by
    rw [BEq.comm]
    rfl
  rw [outEdgesOn, List.filter_append, List.filter_singleton, hkey, outEdgesOn]
  cases e.source == v && e.label.input == input with
  | true => rfl
  | false => exact List.append_nil _

theorem outEdges_eq_nil {g : Graph α} (hg : g.HoldsEnds) {v : Vertex α} (hv : v ∉ g.vertices) :
    g.outEdges v = [] := by
  refine List.filter_eq_nil_iff.mpr fun e he hsource => hv ?_
  rw [← eq_of_beq hsource]
  exact (hg e he).1

end Graph

/-- Tables that hold what a record of insertions says. -/
structure Tables.Represents (t : Tables α) (g : Graph α) : Prop where
  root : t.root = g.root
  adjacency : t.adjacency = g.vertices.map fun v => (v, g.outEdges v)
  byInput (v : Vertex α) (input : Text) : t.byInput.get (v, input) = g.outEdgesOn v input
  known : t.known = g.edges
  ends : g.HoldsEnds

namespace Tables.Represents

variable {t : Tables α} {g : Graph α}

theorem vertices (h : t.Represents g) : t.vertices = g.vertices := by
  rw [Tables.vertices, h.adjacency, List.map_map]
  exact List.map_id _

theorem edges (h : t.Represents g) : t.edges = g.edgesBySource := by
  rw [Tables.edges, h.adjacency, List.flatMap_map]
  rfl

theorem outEdgesOn (h : t.Represents g) (v : Vertex α) (input : Text) :
    t.outEdgesOn v input = g.outEdgesOn v input := h.byInput v input

variable [LawfulBEq α]

theorem outEdges (h : t.Represents g) (v : Vertex α) : t.outEdges v = g.outEdges v := by
  rw [Tables.outEdges, h.adjacency, Table.get_map (Graph.outEdges_eq_nil h.ends)]

theorem addVertex (h : t.Represents g) (v : Vertex α) :
    (t.addVertex v).Represents (g.addVertex v) where
  root := h.root.trans (Graph.grows_addVertex g v).root.symm
  adjacency := by
    have hkeys : t.adjacency.map Prod.fst = g.vertices := h.vertices
    simp only [Graph.outEdges_addVertex, Graph.vertices_addVertex, Tables.addVertex, Table.enter,
      hkeys]
    split
    case isTrue => exact h.adjacency
    case isFalse hnew =>
      have hv : v ∉ g.vertices := mt List.contains_iff_mem.mpr hnew
      rw [List.map_append, ← h.adjacency, List.map_singleton, Graph.outEdges_eq_nil h.ends hv]
  byInput w input := (h.byInput w input).trans (Graph.outEdgesOn_addVertex g v w input).symm
  known := h.known.trans (Graph.edges_addVertex g v).symm
  ends := h.ends.addVertex v

/-- A new edge between vertices of the graph goes to the end of its lists. -/
theorem append (h : t.Represents g) {e : Edge α} (hsource : e.source ∈ g.vertices)
    (htarget : e.target ∈ g.vertices) :
    Represents { t with
      known := t.known ++ [e]
      adjacency := t.adjacency.add e.source e
      byInput := (t.byInput.enter (e.source, e.label.input)).add (e.source, e.label.input) e }
      { g with edges := g.edges ++ [e] } where
  root := h.root
  adjacency := by
    rw [h.adjacency, Table.add, List.map_map]
    refine List.map_congr_left fun v _ => ?_
    rw [Graph.outEdges_append]
    rfl
  byInput v input := by
    have hkey : (e.source, e.label.input) ∈
        (t.byInput.enter (e.source, e.label.input)).map Prod.fst := by
      rw [Table.map_fst_enter, mem_appendNew]
      exact .inr rfl
    rw [Table.get_add hkey, Table.get_enter, h.byInput, Graph.outEdgesOn_append]
  known := congrArg (· ++ [e]) h.known
  ends f hf := by
    obtain hold | rfl := List.mem_append.mp hf |>.imp_right List.mem_singleton.mp
    · exact h.ends f hold
    · exact ⟨hsource, htarget⟩

theorem addEdge (h : t.Represents g) (e : Edge α) :
    (t.addEdge e).1.Represents (g.addEdge e).1 ∧ (t.addEdge e).2 = (g.addEdge e).2 := by
  have hends := (h.addVertex e.source).addVertex e.target
  unfold Tables.addEdge Graph.addEdge
  rw [h.known]
  split
  case isTrue => exact ⟨h, rfl⟩
  case isFalse =>
    have hsource : e.source ∈ ((g.addVertex e.source).addVertex e.target).vertices := by
      rw [Graph.mem_vertices_addVertex, Graph.mem_vertices_addVertex]
      exact .inl (.inr rfl)
    have htarget : e.target ∈ ((g.addVertex e.source).addVertex e.target).vertices :=
      Graph.mem_vertices_addVertex.mpr (.inr rfl)
    exact ⟨hends.append hsource htarget, rfl⟩

theorem addAll (h : t.Represents g) (additions : List (Addition α)) :
    (t.addAll additions).Represents (g.addAll additions) := by
  induction additions generalizing t g with
  | nil => exact h
  | cons addition additions ih =>
    cases addition with
    | vertex v => exact ih (h.addVertex v)
    | edge e => exact ih (h.addEdge e).1

end Tables.Represents

theorem Tables.represents_rooted [LawfulBEq α] (root : Vertex α) :
    (Tables.rooted root).Represents (Graph.rooted root) where
  root := rfl
  adjacency := rfl
  byInput _ _ := rfl
  known := rfl
  ends := Graph.holdsEnds_rooted root

end Represents

/-! ### What additions leave -/

namespace Graph

section Runs
variable [BEq α]

theorem addAll_append (g : Graph α) (additions later : List (Addition α)) :
    g.addAll (additions ++ later) = (g.addAll additions).addAll later := List.foldl_append

/-- What every addition keeps holds after any additions. -/
theorem addAll_induction {P : Graph α → Prop} (hvertex : ∀ g v, P g → P (g.addVertex v))
    (hedge : ∀ g e, P g → P (g.addEdge e).1) {g : Graph α} (hg : P g)
    (additions : List (Addition α)) : P (g.addAll additions) := by
  induction additions generalizing g with
  | nil => exact hg
  | cons addition additions ih =>
    cases addition with
    | vertex v => exact ih (hvertex g v hg)
    | edge e => exact ih (hedge g e hg)

theorem grows_addAll (g : Graph α) (additions : List (Addition α)) :
    g.Grows (g.addAll additions) := by
  refine addAll_induction (fun g' v h => ?_) (fun g' e h => ?_) (Grows.refl g) additions
  · exact h.trans (grows_addVertex g' v)
  · exact h.trans (grows_addEdge g' e)

end Runs

variable [BEq α] [LawfulBEq α]

theorem nodup_vertices_addAll {g : Graph α} (h : g.vertices.Nodup)
    (additions : List (Addition α)) : (g.addAll additions).vertices.Nodup :=
  addAll_induction (P := fun g => g.vertices.Nodup) (fun _ v h => nodup_vertices_addVertex h v)
    (fun _ e h => nodup_vertices_addEdge h e) h additions

theorem nodup_edges_addAll {g : Graph α} (h : g.edges.Nodup)
    (additions : List (Addition α)) : (g.addAll additions).edges.Nodup := by
  refine addAll_induction (P := fun g => g.edges.Nodup) (fun g v h => ?_) (fun g e h => ?_) h
    additions
  · rwa [edges_addVertex]
  · exact nodup_edges_addEdge h e

/-- The record holds the added edges, each once, in the order of their first addition. -/
theorem edges_addAll_rooted (root : Vertex α) (additions : List (Addition α)) :
    ((rooted root).addAll additions).edges = (additions.filterMap Addition.edge?).eraseDups := by
  induction additions using List.reverseRecOn with
  | nil => rfl
  | append_singleton additions addition ih =>
    rw [addAll_append, List.filterMap_append]
    cases addition with
    | vertex v =>
      have hadded : [Addition.vertex v].filterMap Addition.edge? = [] := rfl
      rw [hadded, List.append_nil, ← ih]
      exact edges_addVertex _ v
    | edge e =>
      have hadded : [Addition.edge e].filterMap Addition.edge? = [e] := rfl
      rw [hadded, eraseDups_append_singleton, ← ih]
      refine (edges_addEdge _ e).trans ?_
      have hknown : ((rooted root).addAll additions).edges.contains e =
          (additions.filterMap Addition.edge?).contains e := by
        rw [Bool.eq_iff_iff, List.contains_iff_mem, List.contains_iff_mem, ih, List.mem_eraseDups]
      rw [hknown]

/-- Grouping the edges by their sources reorders them. -/
theorem edgesBySource_perm {g : Graph α} (hvertices : g.vertices.Nodup) (hedges : g.edges.Nodup)
    (hends : g.HoldsEnds) : g.edgesBySource.Perm g.edges := by
  have hmem (v : Vertex α) (e : Edge α) : e ∈ g.outEdges v ↔ e ∈ g.edges ∧ e.source = v := by
    rw [outEdges, List.mem_filter, beq_iff_eq]
  have hnodup : g.edgesBySource.Nodup := by
    refine List.nodup_flatMap.mpr ⟨fun v _ => hedges.filter _, hvertices.imp ?_⟩
    intro v w hne e hv hw
    exact hne (((hmem v e).mp hv).2.symm.trans ((hmem w e).mp hw).2)
  refine (List.perm_ext_iff_of_nodup hnodup hedges).mpr fun e => ?_
  rw [edgesBySource, List.mem_flatMap]
  constructor
  · rintro ⟨v, -, he⟩
    exact ((hmem v e).mp he).1
  · intro he
    exact ⟨e.source, (hends e he).1, (hmem e.source e).mpr ⟨he, rfl⟩⟩

end Graph

/-! ### What the tables answer -/

namespace Tables

variable [BEq α]

/-- Tables that answer from the edges added to them, each counted once. -/
structure Holds (t : Tables α) (root : Vertex α) (added : List (Edge α)) : Prop where
  nodup_vertices : t.vertices.Nodup
  head?_vertices : t.vertices.head? = some root
  nodup_edges : t.edges.Nodup
  length_edges : t.edges.length = t.edgeCount
  mem_edges (e : Edge α) : e ∈ t.edges ↔ e ∈ added
  ends (e : Edge α) : e ∈ t.edges → e.source ∈ t.vertices ∧ e.target ∈ t.vertices
  outEdges (v : Vertex α) : t.outEdges v = added.eraseDups.filter (·.source == v)
  outEdgesOn (v : Vertex α) (input : Text) :
    t.outEdgesOn v input = (t.outEdges v).filter (·.label.input == input)
  isNew_iff (e : Edge α) : (t.addEdge e).2 = true ↔ e ∉ t.edges
  unchanged (e : Edge α) : (t.addEdge e).2 = false → (t.addEdge e).1 = t

/-- Tables that a record of insertions answers for. -/
structure AnswersAs (t : Tables α) (g : Graph α) : Prop where
  vertices : t.vertices = g.vertices
  edges : t.edges = g.edgesBySource
  edgeCount : t.edgeCount = g.stats.edges
  outEdges (v : Vertex α) : t.outEdges v = g.outEdges v
  outEdgesOn (v : Vertex α) (input : Text) : t.outEdgesOn v input = g.outEdgesOn v input
  isNew (e : Edge α) : (t.addEdge e).2 = (g.addEdge e).2
  unchanged (e : Edge α) : (t.addEdge e).2 = false → (g.addEdge e).1 = g

theorem addEdge_isNew_iff (t : Tables α) (e : Edge α) :
    (t.addEdge e).2 = true ↔ t.known.contains e = false := by
  unfold addEdge
  split
  case isTrue h => simp only [h, Bool.false_eq_true, Bool.true_eq_false]
  case isFalse h => exact ⟨fun _ => Bool.not_eq_true _ ▸ h, fun _ => rfl⟩

theorem addEdge_of_known {t : Tables α} {e : Edge α} (h : (t.addEdge e).2 = false) :
    t.known.contains e = true ∧ (t.addEdge e).1 = t := by
  unfold addEdge at h ⊢
  split at h
  case isTrue hknown => exact ⟨hknown, by rw [if_pos hknown]⟩
  case isFalse => exact absurd h (Bool.noConfusion)

variable [LawfulBEq α] {t : Tables α} {g : Graph α}

theorem Represents.answersAs (h : t.Represents g) : t.AnswersAs g where
  vertices := h.vertices
  edges := h.edges
  edgeCount := congrArg List.length h.known
  outEdges := h.outEdges
  outEdgesOn := h.outEdgesOn
  isNew e := (h.addEdge e).2
  unchanged e hold := by
    have hknown := (addEdge_of_known hold).1
    rw [h.known] at hknown
    rw [Graph.addEdge, if_pos hknown]

/-- Tables that stay in step with the record answer from the edges of the record. -/
theorem Represents.holds (h : t.Represents g) {root : Vertex α} {added : List (Edge α)}
    (hhead : g.vertices.head? = some root) (hvertices : g.vertices.Nodup)
    (hnodup : g.edges.Nodup) (hadded : g.edges = added.eraseDups) : t.Holds root added := by
  have hperm : t.edges.Perm g.edges :=
    h.edges ▸ Graph.edgesBySource_perm hvertices hnodup h.ends
  exact {
    nodup_vertices := h.vertices ▸ hvertices
    head?_vertices := h.vertices ▸ hhead
    nodup_edges := hperm.nodup_iff.mpr hnodup
    length_edges := hperm.length_eq.trans (congrArg List.length h.known).symm
    mem_edges := fun e => by rw [hperm.mem_iff, hadded, List.mem_eraseDups]
    ends := fun e he => h.vertices ▸ h.ends e (hperm.mem_iff.mp he)
    outEdges := fun v => by rw [h.outEdges, Graph.outEdges, hadded]
    outEdgesOn := fun v input => by
      rw [h.outEdgesOn, h.outEdges, Graph.outEdgesOn, Graph.outEdges, List.filter_filter]
      simp only [Bool.and_comm]
    isNew_iff := fun e => by
      rw [addEdge_isNew_iff, h.known, hperm.mem_iff, ← List.contains_iff_mem, Bool.not_eq_true]
    unchanged := fun e hold => (addEdge_of_known hold).2 }

/-- After any additions the three tables are in step: they answer from the added edges, and as
the record of the insertions does. -/
theorem holds_addAll_rooted (root : Vertex α) (additions : List (Addition α)) :
    ((rooted root).addAll additions).Holds root (additions.filterMap Addition.edge?) ∧
      ((rooted root).addAll additions).AnswersAs ((Graph.rooted root).addAll additions) := by
  have hrepresents := (represents_rooted root).addAll additions
  have hhead : ((Graph.rooted root).addAll additions).vertices.head? = some root := by
    obtain ⟨later, hlater⟩ := (Graph.grows_addAll (Graph.rooted root) additions).vertices
    rw [← hlater]
    rfl
  have hvertices : ((Graph.rooted root).addAll additions).vertices.Nodup :=
    Graph.nodup_vertices_addAll (List.nodup_singleton root) additions
  have hedges : ((Graph.rooted root).addAll additions).edges.Nodup :=
    Graph.nodup_edges_addAll List.nodup_nil additions
  exact ⟨hrepresents.holds hhead hvertices hedges (Graph.edges_addAll_rooted root additions),
    hrepresents.answersAs⟩

/-- An edge from a new vertex back to the root, two self loops that differ in their inputs, the
first of them once more and a vertex without edges. -/
theorem holds_addAll_rooted_selfLoops :
    let root : Vertex Text := ⟨"", "", .initial⟩
    let far : Vertex Text := ⟨"ab", "x", .terminal⟩
    let back : Edge Text := ⟨far, root, ⟨"ab", "x"⟩⟩
    let loop : Edge Text := ⟨root, root, ⟨"", "y"⟩⟩
    let other : Edge Text := ⟨root, root, ⟨"a", "y"⟩⟩
    let t := (rooted root).addAll
      [.edge back, .edge loop, .vertex ⟨"c", "z", .transitional⟩, .edge other, .edge loop]
    t.Holds root [back, loop, other, loop] ∧ t.outEdges root = [loop, other] ∧
      t.outEdgesOn root "a" = [other] ∧ (t.addEdge other).1 = t := by
  intro root far back loop other t
  have hholds : t.Holds root [back, loop, other, loop] := (holds_addAll_rooted root _).1
  refine ⟨hholds, ?_, ?_, hholds.unchanged other ?_⟩
  · rw [hholds.outEdges]
    decide
  · rw [hholds.outEdgesOn, hholds.outEdges]
    decide
  · decide

end Tables

end RuleTransducer
