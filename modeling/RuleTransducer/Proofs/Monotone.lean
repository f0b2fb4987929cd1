import Mathlib.Data.List.Flatten
import RuleTransducer.Graph.Misfit
import RuleTransducer.Proofs.Completeness
import RuleTransducer.Proofs.Tables

/-! What a graph answers is never lost. A graph that holds the edges of another among its own, in
their order, has at every vertex the edges of the other among its own. New edges may open branches
at many levels of the search at once, also along a cycle, but the walks of the old edges stay in
their order between them. Whatever is done to a graph only puts edges behind those that it
holds. -/

namespace RuleTransducer.Graph

variable {α : Type} [BEq α]

/-! ### More edges, more answers -/

section Edges
variable {g g' : Graph α}

theorem outEdgesOn_sublist (h : g.edges.Sublist g'.edges) (v : Vertex α) (input : Text) :
    (g.outEdgesOn v input).Sublist (g'.outEdgesOn v input) := h.filter _

variable [Fragment α]

/-- By induction on the input: the branches of the old edges come in their order, and each of
them keeps what it stands for. -/
theorem walk_sublist (h : g.edges.Sublist g'.edges) (v : Vertex α) (produced : Text)
    (input : List CodePoint) : (g.walk v produced input).Sublist (g'.walk v produced input) := by
  induction input generalizing v produced with
  | nil => exact List.Sublist.refl _
  | cons c rest ih =>
    have hkept : (g.walk v produced (c :: rest)).Sublist
        ((g.outEdgesOn v (Text.singleton c)).flatMap fun e =>
          g'.walk e.target (produced ++ Fragment.written e.label.output) rest) :=
      List.Sublist.flatMap_right _ fun e _ => ih _ _
    exact hkept.trans ((outEdgesOn_sublist h v (Text.singleton c)).flatMap _)

theorem Grows.transduceFrom_sublist (h : g.Grows g') (start : Vertex α) (text : Text) :
    (g.transduceFrom start text).Sublist (g'.transduceFrom start text) := by
  rw [transduceFrom_eq_walk, transduceFrom_eq_walk]
  exact walk_sublist h.edges.sublist start "" text.toList

theorem Grows.transduce_sublist (h : g.Grows g') (text : Text) :
    (g.transduce text).Sublist (g'.transduce text) := by
  rw [transduce, transduce, h.root]
  exact h.transduceFrom_sublist g.root text

end Edges

/-- A traversal that succeeds is that of any graph. -/
theorem eq_transduceFrom_of_ok {g : Graph Datum} {start : Vertex Datum} {text : Text}
    {outputs : List Text} (h : g.tryTransduceFrom start text = .ok outputs) :
    outputs = g.transduceFrom start text := by
  unfold tryTransduceFrom at h
  split at h
  · cases h
  · exact (Except.ok.inj h).symm

/-! ### Every change grows the graph -/

section Changes
variable [Fragment α]

theorem grows_addRule (g : Graph α) (declared : Datum) : g.Grows (g.addRule declared).graph := by
  obtain ⟨hgraph, -⟩ | ⟨hgraph, -⟩ := addRule_cases g declared
  · rw [hgraph]
    exact Grows.refl g
  · rw [hgraph]
    exact grows_buildDeclared g declared

theorem grows_buildAll (g : Graph α) (rules : List Datum) : g.Grows (g.buildAll rules).1 := by
  induction rules generalizing g with
  | nil => exact Grows.refl g
  | cons declared rest ih =>
    have hfirst := grows_buildDeclared g declared
    unfold buildAll
    dsimp only
    cases (g.buildDeclared declared).error? with
    | some e => exact hfirst
    | none => exact hfirst.trans (ih _)

theorem grows_register (g : Graph α) (call : Registration) : g.Grows (g.register call).1 := by
  cases call with
  | add declared => exact grows_addRule g declared
  | build declared => exact grows_buildDeclared g declared
  | buildEach rules =>
    dsimp only [register, buildEach]
    cases rules.elements with
    | error e => exact Grows.refl g
    | ok rules => exact grows_buildAll g rules

/-- A change to a graph: a part that is added, or a call that registers rules, whether it fails
or not. -/
inductive Change (α : Type)
  | add (addition : Addition α)
  | register (call : Registration)

/-- The graph after a change. -/
def change (g : Graph α) : Change α → Graph α
  | .add addition => g.addAll [addition]
  | .register call => (g.register call).1

theorem grows_change (g : Graph α) (c : Change α) : g.Grows (g.change c) := by
  cases c with
  | add addition => exact grows_addAll g [addition]
  | register call => exact grows_register g call

theorem grows_foldl_change (g : Graph α) (changes : List (Change α)) :
    g.Grows (changes.foldl change g) := by
  induction changes generalizing g with
  | nil => exact Grows.refl g
  | cons c changes ih => exact (grows_change g c).trans (ih _)

/-- Whatever changes a graph, the answers it gave before are among those it gives afterwards, in
their order and as often, from every start vertex and on every input. -/
theorem transduceFrom_sublist_changed (g : Graph α) (changes : List (Change α)) (text : Text) :
    (∀ start, (g.transduceFrom start text).Sublist
        ((changes.foldl change g).transduceFrom start text)) ∧
      (g.transduce text).Sublist ((changes.foldl change g).transduce text) :=
  ⟨fun start => (grows_foldl_change g changes).transduceFrom_sublist start text,
    (grows_foldl_change g changes).transduce_sublist text⟩

end Changes

/-- A graph over any fragments also keeps its answers, as long as it meets no fragment that is no
text. -/
theorem tryTransduceFrom_sublist_changed {g : Graph Datum} {changes : List (Change Datum)}
    {start : Vertex Datum} {text : Text} {before after : List Text}
    (hbefore : g.tryTransduceFrom start text = .ok before)
    (hafter : (changes.foldl change g).tryTransduceFrom start text = .ok after) :
    before.Sublist after := by
  rw [eq_transduceFrom_of_ok hbefore, eq_transduceFrom_of_ok hafter]
  exact (grows_foldl_change g changes).transduceFrom_sublist start text

end RuleTransducer.Graph
