import RuleTransducer.Proofs.Registration

/-! Completeness. Once a rule that closes is built, the graph holds its chain, and the chain
is an accepting path over the input of the rule that emits its output. Nothing that can be
done to a graph takes an edge away, so the output stays, whatever the graph held before and
whatever is added to it later. -/

namespace RuleTransducer

variable {α : Type} [BEq α]

/-! ### Every build grows the graph -/

namespace Cursor

theorem grows_advance (c : Cursor α) (label : Label α) (closing : Bool) :
    c.graph.Grows (c.advance label closing).graph := Graph.grows_addEdge _ _

variable [Fragment α]

theorem grows_followPairs (c : Cursor α) (ending : Bool) (ps : List (Datum × Datum)) :
    c.graph.Grows (c.followPairs ending ps).1.graph := by
  induction ps generalizing c with
  | nil => exact Graph.Grows.refl _
  | cons p ps ih =>
    unfold followPairs
    split
    · exact Graph.Grows.refl _
    · exact Graph.Grows.refl _
    · exact (c.grows_advance _ _).trans (ih _)

theorem grows_followItems (c : Cursor α) (items : List (Item Datum)) :
    c.graph.Grows (c.followItems items).1.graph := by
  induction items generalizing c with
  | nil => exact Graph.Grows.refl _
  | cons item items ih =>
    unfold followItems
    cases item.pairs with
    | error e => exact Graph.Grows.refl _
    | ok ps =>
      have hpairs := c.grows_followPairs items.isEmpty ps
      dsimp only
      generalize c.followPairs items.isEmpty ps = reached at hpairs ⊢
      obtain ⟨reached, _ | e⟩ := reached
      · exact hpairs.trans (ih reached)
      · exact hpairs

end Cursor

namespace Graph

variable [Fragment α]

theorem grows_buildLoose (g : Graph α) (items : List (Item Datum)) :
    g.Grows (g.buildLoose items).graph := by
  have hitems := (Cursor.atRoot g).grows_followItems items
  unfold buildLoose
  generalize (Cursor.atRoot g).followItems items = reached at hitems ⊢
  obtain ⟨reached, _ | e⟩ := reached
  · cases Datum.joinTexts (items.map Item.source) <;> exact hitems
  · exact hitems

theorem grows_buildDeclared (g : Graph α) (declared : Datum) :
    g.Grows (g.buildDeclared declared).graph := by
  unfold buildDeclared buildItems
  split
  · split
    · exact grows_build g _
    · exact grows_buildLoose g _
  · exact Grows.refl g

/-! ### Later growth -/

/-- What can be done to a graph. -/
inductive Growth (α : Type)
  | vertex (v : Vertex α)
  | edge (e : Edge α)
  /-- A rule built without validation, whether it fails or not. -/
  | build (declared : Datum)

/-- The graph after a growth. -/
def grow (g : Graph α) : Growth α → Graph α
  | .vertex v => g.addVertex v
  | .edge e => (g.addEdge e).1
  | .build declared => (g.buildDeclared declared).graph

theorem grows_grow (g : Graph α) (growth : Growth α) : g.Grows (g.grow growth) := by
  cases growth with
  | vertex v => exact grows_addVertex g v
  | edge e => exact grows_addEdge g e
  | build declared => exact grows_buildDeclared g declared

theorem grows_foldl_grow (g : Graph α) (growths : List (Growth α)) :
    g.Grows (growths.foldl grow g) := by
  induction growths generalizing g with
  | nil => exact Grows.refl g
  | cons growth growths ih => exact (grows_grow g growth).trans (ih _)

/-! ### Outputs of rules -/

/-- A graph that holds the chain of a rule that closes has the rule's output for its input. -/
theorem outputText_mem_transduce_of_chain {g : Graph Text} {rule : Rule}
    (halign : rule.Alignable) (hcloses : rule.closes)
    (h : ∀ e ∈ chain g.root "" rule.plan.1, e ∈ g.edges) :
    rule.outputText ∈ g.transduce rule.inputText := by
  rw [transduce_eq_map_paths, List.mem_map]
  refine ⟨_, mem_paths_iff.mpr (accepts_chain_plan halign hcloses h), ?_⟩
  have hemitted : emitted (chain g.root "" rule.plan.1) = rule.fragments := by
    rw [emitted_chain, Rule.plan_of_alignable halign, ← Rule.map_output_steps]
    rfl
  rw [hemitted, Rule.join_fragments halign]

/-- Whatever a graph holds, a rule that is built in it and whose last item reads has its
output for its input, at once and after all later growth. -/
theorem outputText_mem_transduce_grown (g : Graph Text) {declared : Datum} {rule : Rule}
    (hrule : declared.textRule? = some rule)
    (hbuilt : (g.buildDeclared declared).error? = none) (hcloses : rule.closes = true)
    (growths : List (Growth Text)) :
    rule.outputText ∈
      (growths.foldl grow (g.buildDeclared declared).graph).transduce rule.inputText := by
  rw [buildDeclared_of_textRule? hrule] at hbuilt ⊢
  have halign : rule.Alignable := (error?_buildRule g rule).mp hbuilt
  have hlater := grows_foldl_grow (g.buildRule rule).graph growths
  refine outputText_mem_transduce_of_chain halign hcloses fun e he => hlater.mem_edges ?_
  have hroot : (growths.foldl grow (g.buildRule rule).graph).root = g.root :=
    hlater.root.trans (grows_build g rule).root
  rw [hroot] at he
  have hbuild : (g.buildRule rule).graph = g.addEdges (chain g.root "" rule.plan.1) :=
    build_eq g rule
  rw [hbuild]
  exact mem_edges_addEdges.mpr (.inr he)

/-- A graph whose root is a terminal vertex with an edge to itself. -/
def looped : Graph Text :=
  ⟨⟨"q", "z", .terminal⟩, [⟨"q", "z", .terminal⟩],
    [⟨⟨"q", "z", .terminal⟩, ⟨"q", "z", .terminal⟩, ⟨"a", "w"⟩⟩]⟩

/-- Growths of every kind, among them a build that fails behind its first edge. -/
def laterGrowths : List (Growth Text) :=
  [.vertex ⟨"ab", "b", .terminal⟩,
    .edge ⟨⟨"a", "xy", .transitional⟩, ⟨"", "", .initial⟩, ⟨"b", "b"⟩⟩,
    .build (.list [.text "c", .tuple [.text "", .text "z"]])]

theorem outputText_mem_transduce_grown_looped :
    ("xyb" : Text) ∈ (laterGrowths.foldl grow (looped.buildDeclared
      (.list [.tuple [.text "a", .text "xy"], .text "b"])).graph).transduce "ab" := by
  have hrule : Datum.textRule? (.list [.tuple [.text "a", .text "xy"], .text "b"]) =
      some ⟨[.transform "a" "xy", .literal "b"]⟩ := rfl
  exact outputText_mem_transduce_grown looped hrule rfl rfl laterGrowths

end Graph

end RuleTransducer
