import Mathlib.Data.List.Nodup
import RuleTransducer.Graph.Traversal

/-! The paths that a traversal follows. The stack of open branches, each a vertex with the
input left, stands for the walks from its branches one after another, so the search is the
recursive walk; and the walk lists the outputs of the accepting paths, each path once if the
graph holds each edge once. A way is a path of the same kind that may end on any vertex, and the
accepting paths are the ways that end on a terminal one. -/

namespace RuleTransducer

variable {α : Type}

theorem Outcome.isAccepted_ofOutputs (outputs : List Text) :
    (Outcome.ofOutputs outputs).isAccepted = true ↔ outputs ≠ [] := by
  match outputs with
  | [] => simp [ofOutputs, isAccepted, kind]
  | [output] => simp [ofOutputs, isAccepted, kind]
  | first :: second :: rest => simp [ofOutputs, isAccepted, kind]

namespace Graph

/-! ### The search is the walk -/

section Walk
variable [BEq α] [Fragment α]

/-- The outputs that a stack stands for. -/
def walks (g : Graph α) (stack : List (Branch α)) : List Text :=
  stack.flatMap fun b => g.walk b.vertex b.produced b.rest

theorem walks_branches (g : Graph α) (v : Vertex α) (produced : Text) (c : CodePoint)
    (rest : List CodePoint) :
    g.walks (g.branches v produced c rest) = g.walk v produced (c :: rest) := by
  rw [walks, branches, List.flatMap_map, walk]

/-- A run of the search finds what its stack stands for, behind what is found. -/
theorem search_eq (g : Graph α) (stack : List (Branch α)) (found : List Text) :
    g.search stack found = found.reverse ++ g.walks stack := by
  induction stack, found using search.induct g with
  | case1 found => simp [search, walks]
  | case2 found v produced stack ih =>
    rw [search, ← dite_eq_ite, ih]
    by_cases hv : v.isTerminal <;> simp [walks, walk, hv]
  | case3 found c rest v produced stack ih =>
    rw [search, ih, walks, List.flatMap_append, ← walks, walks_branches]
    rfl

theorem transduceFrom_eq_walk (g : Graph α) (start : Vertex α) (text : Text) :
    g.transduceFrom start text = g.walk start "" text.toList := by
  rw [transduceFrom, search_eq]
  simp [walks]

end Walk

/-! ### Accepting paths -/

/-- A run of edges that leads from a vertex over an input to a terminal vertex. -/
def Accepts (g : Graph α) : Vertex α → List CodePoint → List (Edge α) → Prop
  | v, [], [] => v.isTerminal
  | v, c :: rest, e :: p =>
    e ∈ g.edges ∧ e.source = v ∧ e.label.input = Text.singleton c ∧ g.Accepts e.target rest p
  | _, _, _ => False

/-- What a path emits. -/
def emitted (p : List (Edge α)) : List α := p.map fun e => e.label.output

theorem length_emitted_of_accepts {g : Graph α} {v : Vertex α} {input : List CodePoint}
    {p : List (Edge α)} (h : g.Accepts v input p) : (emitted p).length = input.length := by
  induction input generalizing v p with
  | nil =>
    cases p with
    | nil => rfl
    | cons e q => exact h.elim
  | cons c rest ih =>
    cases p with
    | nil => exact h.elim
    | cons e q => exact congrArg (· + 1) (ih h.2.2.2)

theorem mem_edges_of_accepts {g : Graph α} {v : Vertex α} {input : List CodePoint}
    {p : List (Edge α)} (h : g.Accepts v input p) {e : Edge α} (he : e ∈ p) : e ∈ g.edges := by
  induction input generalizing v p with
  | nil =>
    cases p with
    | nil => exact absurd he List.not_mem_nil
    | cons f q => exact h.elim
  | cons c rest ih =>
    cases p with
    | nil => exact h.elim
    | cons f q =>
      obtain rfl | he := List.mem_cons.mp he
      · exact h.1
      · exact ih h.2.2.2 he

/-- A run of edges that leads from a vertex over an input, to whatever vertex. -/
def Leads (g : Graph α) : Vertex α → List CodePoint → List (Edge α) → Prop
  | _, [], [] => True
  | v, c :: rest, e :: p =>
    e ∈ g.edges ∧ e.source = v ∧ e.label.input = Text.singleton c ∧ g.Leads e.target rest p
  | _, _, _ => False

/-- Where a run of edges from a vertex ends. -/
def goal : Vertex α → List (Edge α) → Vertex α
  | v, [] => v
  | _, e :: p => goal e.target p

section Path
variable [BEq α]

/-- The accepting paths from a vertex over an input, in the order of discovery. -/
def paths (g : Graph α) (v : Vertex α) : List CodePoint → List (List (Edge α))
  | [] => if v.isTerminal then [[]] else []
  | c :: rest => (g.outEdgesOn v (Text.singleton c)).flatMap fun e =>
      (g.paths e.target rest).map (e :: ·)

theorem mem_outEdgesOn [LawfulBEq α] {g : Graph α} {v : Vertex α} {input : Text} {e : Edge α} :
    e ∈ g.outEdgesOn v input ↔ e ∈ g.edges ∧ e.source = v ∧ e.label.input = input := by
  simp [outEdgesOn]

theorem mem_paths_iff [LawfulBEq α] {g : Graph α} {v : Vertex α} {input : List CodePoint}
    {p : List (Edge α)} : p ∈ g.paths v input ↔ g.Accepts v input p := by
  induction input generalizing v p with
  | nil => cases p <;> by_cases hv : v.isTerminal <;> simp [paths, Accepts, hv]
  | cons c rest ih =>
    simp only [paths, List.mem_flatMap, List.mem_map, mem_outEdgesOn, ih]
    constructor
    · rintro ⟨e, ⟨he, hsource, hinput⟩, q, hq, rfl⟩
      exact ⟨he, hsource, hinput, hq⟩
    · intro hp
      cases p with
      | nil => exact hp.elim
      | cons e q =>
        obtain ⟨he, hsource, hinput, hq⟩ := hp
        exact ⟨e, ⟨he, hsource, hinput⟩, q, hq, rfl⟩

/-- A graph that holds each edge once has each accepting path once. -/
theorem nodup_paths {g : Graph α} (h : g.edges.Nodup) (v : Vertex α) (input : List CodePoint) :
    (g.paths v input).Nodup := by
  induction input generalizing v with
  | nil => rw [paths]; split <;> simp
  | cons c rest ih =>
    rw [paths, List.nodup_flatMap]
    refine ⟨fun e _ => (ih e.target).map (List.cons_injective), ?_⟩
    refine (h.filter _).imp fun {e f} hne => ?_
    simp only [Function.onFun, List.disjoint_left, List.mem_map]
    rintro _ ⟨p, -, rfl⟩ ⟨q, -, hq⟩
    exact hne (List.cons.inj hq).1.symm

/-- The ways from a vertex over an input, whether or not they accept, in the order of the
traversal. -/
def ways (g : Graph α) (v : Vertex α) : List CodePoint → List (List (Edge α))
  | [] => [[]]
  | c :: rest => (g.outEdgesOn v (Text.singleton c)).flatMap fun e =>
      (g.ways e.target rest).map (e :: ·)

theorem mem_ways_iff [LawfulBEq α] {g : Graph α} {v : Vertex α} {input : List CodePoint}
    {p : List (Edge α)} : p ∈ g.ways v input ↔ g.Leads v input p := by
  induction input generalizing v p with
  | nil => cases p <;> simp [ways, Leads]
  | cons c rest ih =>
    cases p with
    | nil => simp [ways, Leads]
    | cons e q => simp [ways, Leads, mem_outEdgesOn, ih, and_assoc]

/-- The accepting paths are the ways that end on a terminal vertex. -/
theorem paths_eq_filter_ways (g : Graph α) (v : Vertex α) (input : List CodePoint) :
    g.paths v input = (g.ways v input).filter fun p => (goal v p).isTerminal := by
  induction input generalizing v with
  | nil => by_cases hv : v.isTerminal <;> simp [paths, ways, goal, hv]
  | cons c rest ih =>
    simp only [paths, ways, List.filter_flatMap, List.filter_map, ih]
    rfl

/-- The walk lists what the accepting paths emit. -/
theorem walk_eq_map_paths [Fragment α] (g : Graph α) (v : Vertex α) (produced : Text)
    (input : List CodePoint) :
    g.walk v produced input =
      (g.paths v input).map fun p => produced ++ Text.join ((emitted p).map Fragment.written) := by
  induction input generalizing v produced with
  | nil => by_cases hv : v.isTerminal <;> simp [walk, paths, hv, emitted]
  | cons c rest ih =>
    simp only [walk, paths, List.map_flatMap, List.map_map]
    refine congrArg (List.flatMap · _) (funext fun e => ?_)
    rw [ih]
    refine List.map_congr_left fun p _ => ?_
    simp [emitted, Text.append_assoc]

/-- The outputs of a traversal are what its accepting paths emit. -/
theorem transduceFrom_eq_map_paths [Fragment α] (g : Graph α) (start : Vertex α) (text : Text) :
    g.transduceFrom start text =
      (g.paths start text.toList).map fun p => Text.join ((emitted p).map Fragment.written) := by
  rw [transduceFrom_eq_walk, walk_eq_map_paths]
  simp

/-- Where fragments are texts, the outputs are the joined fragments of the accepting paths. -/
theorem transduce_eq_map_paths (g : Graph Text) (text : Text) :
    g.transduce text = (g.paths g.root text.toList).map fun p => Text.join (emitted p) := by
  rw [transduce, transduceFrom_eq_map_paths]
  refine List.map_congr_left fun p _ => ?_
  exact congrArg Text.join (List.map_id _)

theorem transduce_eq_nil_iff [Fragment α] [LawfulBEq α] {g : Graph α} {text : Text} :
    g.transduce text = [] ↔ ∀ p, ¬g.Accepts g.root text.toList p := by
  rw [transduce, transduceFrom_eq_map_paths, List.map_eq_nil_iff, List.eq_nil_iff_forall_not_mem]
  simp only [mem_paths_iff]

/-- A graph accepts an input if a path does. -/
theorem canParse_iff [Fragment α] [LawfulBEq α] {g : Graph α} {text : Text} :
    g.canParse text = true ↔ ∃ p, g.Accepts g.root text.toList p := by
  rw [canParse, parse, Outcome.isAccepted_ofOutputs, ne_eq, transduce_eq_nil_iff, not_forall_not]

end Path

end Graph

end RuleTransducer
