import RuleTransducer.Proofs.Registration

/-! What a failing build leaves. A rule without validation is built until its first insertion. The
items before it are inside the rule, so that none of their steps closes, and the graph is left with
the chain of their open steps behind all that it held. A rule with an element that stands for no
item is not begun. Of several rules in order, those before a failing one are built in full and
those after it are not touched. -/

namespace RuleTransducer

open RuleTransducer.Alignment

/-! ### Elements that stand for no item -/

theorem Datum.eq_invalidItem_of_toItem {value : Datum} {e : DeclarationError}
    (h : value.toItem = .error e) : e = .invalidItem value := by
  unfold toItem at h
  split at h
  case h_5 => exact (Except.error.inj h).symm
  all_goals cases h

/-- The first element that stands for no item decides. -/
theorem Datum.mapM_toItem_of_error {elements : List Datum} {element : Datum} {e : DeclarationError}
    (hmem : element ∈ elements) (he : element.toItem = .error e) :
    ∃ value ∈ elements, value.toItem = .error (.invalidItem value) ∧
      elements.mapM Datum.toItem = .error (.invalidItem value) := by
  induction elements with
  | nil => exact absurd hmem List.not_mem_nil
  | cons first rest ih =>
    rw [List.mapM_cons]
    cases hfirst : first.toItem with
    | error f =>
      obtain rfl := eq_invalidItem_of_toItem hfirst
      exact ⟨first, List.mem_cons_self, hfirst, rfl⟩
    | ok part =>
      have hrest : element ∈ rest := by
        obtain rfl | hrest := List.mem_cons.mp hmem
        · cases hfirst.symm.trans he
        · exact hrest
      obtain ⟨value, hvalue, hitem, hmapM⟩ := ih hrest
      refine ⟨value, List.mem_cons_of_mem first hvalue, hitem, ?_⟩
      rw [hmapM]
      rfl

/-- The steps of items that can be aligned, opened, are their pairs. -/
theorem Item.mapM_steps {items : List (Item Text)} (h : ∀ item ∈ items, ¬item.Inserts) :
    ∃ steps : List (List Step), items.mapM Item.steps = .ok steps ∧
      steps.flatten.map Step.opened = openAll (items.flatMap Item.aligned) := by
  induction items with
  | nil => exact ⟨[], rfl, rfl⟩
  | cons item items ih =>
    obtain ⟨hitem, hitems⟩ := List.forall_mem_cons.mp h
    obtain ⟨steps, hsteps, hopened⟩ := ih hitems
    refine ⟨closeLast item.aligned :: steps, ?_, ?_⟩
    · rw [List.mapM_cons, Item.steps_of_not_inserts hitem, hsteps]
      rfl
    · rw [List.flatten_cons, List.map_append, map_opened_closeLast, hopened, List.flatMap_cons,
        openAll_append]

namespace Graph

variable {α : Type} [BEq α] [Fragment α]

/-! ### Open chains -/

section OpenChain
omit [BEq α]

/-- The chain of open steps runs through transitional vertices. -/
theorem transitional_of_mem_chain {v : Vertex α} {consumed : Text} {steps : List Step}
    (hopen : ∀ step ∈ steps, step.closing = false) {e : Edge α} (he : e ∈ chain v consumed steps) :
    (e.source = v ∨ e.source.status = .transitional) ∧ e.target.status = .transitional := by
  induction steps generalizing v consumed with
  | nil => exact absurd he List.not_mem_nil
  | cons step steps ih =>
    obtain ⟨hstep, hsteps⟩ := List.forall_mem_cons.mp hopen
    have htarget (consumed : Text) :
        (Vertex.afterStep consumed (Fragment.ofText step.output : α) step.closing).status =
          .transitional := by
      rw [hstep]
      rfl
    obtain rfl | he := List.mem_cons.mp he
    · exact ⟨.inl rfl, htarget _⟩
    · obtain ⟨hsource, hend⟩ := ih hsteps he
      refine ⟨.inr ?_, hend⟩
      obtain hsource | hsource := hsource
      · rw [hsource]
        exact htarget _
      · exact hsource

end OpenChain

section Terminals
omit [Fragment α]
variable [LawfulBEq α]

theorem terminals_addVertex {g : Graph α} {v : Vertex α}
    (h : v ∈ g.vertices ∨ v.isTerminal = false) : (g.addVertex v).terminals = g.terminals := by
  rw [terminals, vertices_addVertex]
  split
  case isTrue => rfl
  case isFalse hnew =>
    have hv : v.isTerminal = false := h.resolve_left (mt List.contains_iff_mem.mpr hnew)
    rw [List.filter_append, List.filter_singleton, hv]
    exact List.append_nil _

/-- Edges that end on no terminal vertex, and leave no new one, add none. -/
theorem terminals_addEdges {g : Graph α} {es : List (Edge α)}
    (h : ∀ e ∈ es, (e.source ∈ g.vertices ∨ e.source.isTerminal = false) ∧
      e.target.isTerminal = false) : (g.addEdges es).terminals = g.terminals := by
  induction es generalizing g with
  | nil => rfl
  | cons e es ih =>
    obtain ⟨⟨hsource, htarget⟩, hes⟩ := List.forall_mem_cons.mp h
    have hgrows := (grows_addEdge g e).vertices
    have hedge : (g.addEdge e).1.terminals = g.terminals := by
      rw [terminals, vertices_addEdge]
      split
      case isTrue => rfl
      case isFalse =>
        rw [← terminals, terminals_addVertex (.inr htarget), terminals_addVertex hsource]
    rw [addEdges_cons, ih, hedge]
    exact fun f hf => ⟨(hes f hf).1.imp_left fun hmem => hgrows.mem hmem, (hes f hf).2⟩

end Terminals

/-- One graph with the chain of steps inserted from its root, none of which closes, behind all that
another holds. -/
structure OpenlyGrows (g g' : Graph α) (steps : List Step) : Prop where
  graph : g' = g.addEdges (chain g.root "" steps)
  targets : ∀ e ∈ chain g.root "" steps, e.target.status = .transitional
  terminals : g'.terminals = g.terminals
  vertices : g.vertices <+: g'.vertices
  outEdges (v : Vertex α) : g.outEdges v <+: g'.outEdges v
  outEdgesOn (v : Vertex α) (input : Text) : g.outEdgesOn v input <+: g'.outEdgesOn v input

theorem openlyGrows_addEdges [LawfulBEq α] {g : Graph α} (hroot : g.root ∈ g.vertices)
    {steps : List Step} (hopen : ∀ step ∈ steps, step.closing = false) :
    g.OpenlyGrows (g.addEdges (chain g.root "" steps)) steps where
  graph := rfl
  targets e he := (transitional_of_mem_chain hopen he).2
  terminals := by
    have hstatus {v : Vertex α} (hv : v.status = .transitional) : v.isTerminal = false := by
      rw [Vertex.isTerminal, hv]
      rfl
    refine terminals_addEdges fun e he => ?_
    obtain ⟨hsource, htarget⟩ := transitional_of_mem_chain hopen he
    have hroot' (h : e.source = g.root) : e.source ∈ g.vertices := h ▸ hroot
    exact ⟨hsource.imp hroot' hstatus, hstatus htarget⟩
  vertices := (grows_addEdges g _).vertices
  outEdges v := (grows_addEdges g _).edges.filter _
  outEdgesOn v input := (grows_addEdges g _).edges.filter _

/-! ### Failing builds -/

/-- A rule is built up to its first insertion. -/
theorem buildRule_of_insertion (g : Graph α) {before : List (Item Text)} {item : Item Text}
    (hbefore : ∀ item ∈ before, ¬item.Inserts) (hitem : item.Inserts)
    (after : List (Item Text)) :
    (g.buildRule ⟨before ++ item :: after⟩).error? =
        some (.insertion (.text item.destination)) ∧
      (g.buildRule ⟨before ++ item :: after⟩).graph =
        g.addEdges (chain g.root "" (openAll (before.flatMap Item.aligned))) := by
  have hplan := Rule.plan_of_insertion hbefore hitem after
  constructor
  · simp only [buildRule, thread, hplan]
    rfl
  · have hbuild : (g.buildRule ⟨before ++ item :: after⟩).graph =
        g.build ⟨before ++ item :: after⟩ :=
      rfl
    rw [hbuild, build_eq, hplan]

/-- Coercion comes first. -/
theorem buildDeclared_of_invalidItem (g : Graph α) {declared element : Datum}
    {elements : List Datum} {e : DeclarationError} (helements : declared.elements? = some elements)
    (hmem : element ∈ elements) (he : element.toItem = .error e) :
    ∃ value ∈ elements, value.toItem = .error (.invalidItem value) ∧
      (g.buildDeclared declared).error? = some (.declaration (.invalidItem value)) ∧
      (g.buildDeclared declared).graph = g := by
  obtain ⟨value, hvalue, hitem, hmapM⟩ := Datum.mapM_toItem_of_error hmem he
  have hitems : declared.toItems = .error (.invalidItem value) := by
    rw [Datum.toItems, Datum.elements, helements]
    exact hmapM
  refine ⟨value, hvalue, hitem, ?_⟩
  simp only [buildDeclared, hitems, and_self]

/-- Rules are built in order up to the first that fails. -/
theorem buildAll_of_failing {g : Graph α} {before after : List Datum} {declared : Datum}
    {e : BuildError} (hbefore : (g.buildAll before).2 = none)
    (he : ((g.buildAll before).1.buildDeclared declared).error? = some e) :
    g.buildAll (before ++ declared :: after) =
      (((g.buildAll before).1.buildDeclared declared).graph, some e) := by
  induction before generalizing g with
  | nil =>
    simp only [buildAll] at he
    simp only [List.nil_append, buildAll, he]
  | cons first before ih =>
    rw [buildAll] at hbefore he ⊢
    cases hfirst : (g.buildDeclared first).error? with
    | some f => simp only [hfirst, reduceCtorEq] at hbefore
    | none =>
      simp only [hfirst] at hbefore he
      simp only [List.cons_append, buildAll, hfirst]
      exact ih hbefore he

/-- Rules over texts that are all built are threaded in full. -/
theorem buildAll_of_textRules {g : Graph α} {declared : List Datum} {rules : List Rule}
    (hrules : declared.mapM Datum.textRule? = some rules) (h : (g.buildAll declared).2 = none) :
    (g.buildAll declared).1 = g.buildRules rules ∧ ∀ rule ∈ rules, rule.Alignable := by
  induction declared generalizing g rules with
  | nil =>
    cases hrules
    exact ⟨rfl, fun rule hrule => absurd hrule List.not_mem_nil⟩
  | cons first rest ih =>
    obtain ⟨rule, hrule, later, hlater, rfl⟩ := mapM_cons_eq_some_iff.mp hrules
    have hfirst := buildDeclared_of_textRule? hrule g
    rw [buildAll] at h ⊢
    rw [hfirst] at h ⊢
    cases herror : (g.buildRule rule).error? with
    | some e => simp only [herror, reduceCtorEq] at h
    | none =>
      simp only [herror] at h ⊢
      obtain ⟨hgraph, halign⟩ := ih hlater h
      exact ⟨hgraph, List.forall_mem_cons.mpr ⟨(error?_buildRule g rule).mp herror, halign⟩⟩

/-- The exact effect of a build that fails, in a graph that holds its root. A rule whose first
insertion follows `before` leaves the open steps of `before` inserted from the root. A value with an
element that stands for no item leaves the graph as it was, whatever its other elements are. Among
several rules, those before a failing one are built in full, and those after it are not touched. -/
theorem failing_build [LawfulBEq α] {g : Graph α} (hroot : g.root ∈ g.vertices) :
    (∀ (declared : Datum) (before after : List (Item Text)) (destination : Text),
      declared.textRule? = some ⟨before ++ .transform "" destination :: after⟩ →
      destination ≠ "" → (∀ item ∈ before, ¬item.Inserts) →
      (g.buildDeclared declared).error? = some (.insertion (.text destination)) ∧
        ∃ steps : List (List Step), before.mapM Item.steps = .ok steps ∧
          g.OpenlyGrows (g.buildDeclared declared).graph (steps.flatten.map Step.opened)) ∧
    (∀ (declared element : Datum) (elements : List Datum) (e : DeclarationError),
      declared.elements? = some elements → element ∈ elements → element.toItem = .error e →
      ∃ value ∈ elements, value.toItem = .error (.invalidItem value) ∧
        (g.buildDeclared declared).error? = some (.declaration (.invalidItem value)) ∧
        (g.buildDeclared declared).graph = g) ∧
    ∀ (rules declared : Datum) (before after : List Datum) (e : BuildError),
      rules.elements? = some (before ++ declared :: after) → (g.buildAll before).2 = none →
      ((g.buildAll before).1.buildDeclared declared).error? = some e →
      g.buildEach rules = (((g.buildAll before).1.buildDeclared declared).graph, some e) ∧
        ∀ texts, before.mapM Datum.textRule? = some texts →
          (g.buildAll before).1 = g.buildRules texts ∧ ∀ rule ∈ texts, rule.Alignable := by
  refine ⟨?_, ?_, ?_⟩
  · intro declared before after destination hrule hdestination hbefore
    have hitem : (Item.transform ("" : Text) destination).Inserts := ⟨rfl, hdestination⟩
    obtain ⟨herror, hgraph⟩ := buildRule_of_insertion g hbefore hitem after
    obtain ⟨steps, hsteps, hopened⟩ := Item.mapM_steps hbefore
    rw [buildDeclared_of_textRule? hrule]
    refine ⟨herror, steps, hsteps, ?_⟩
    rw [hgraph, ← hopened]
    refine openlyGrows_addEdges hroot fun step hstep => ?_
    obtain ⟨closed, -, rfl⟩ := List.mem_map.mp hstep
    rfl
  · intro declared element elements e helements hmem he
    exact buildDeclared_of_invalidItem g helements hmem he
  · intro rules declared before after e helements hbefore he
    refine ⟨?_, fun texts htexts => buildAll_of_textRules htexts hbefore⟩
    simp only [buildEach, Datum.elements, helements]
    exact buildAll_of_failing hbefore he

/-- In a graph whose root is terminal: an insertion behind two open steps, a value that is no item
behind an insertion, and the insertion between two other rules. -/
theorem failing_build_terminalRoot :
    let g : Graph Text := rooted ⟨"q", "z", .terminal⟩
    let inserting : Datum := .list [.text "ab", .tuple [.text "", .text "x"], .text "c"]
    let rules : Datum := .list [.list [.text "d"], inserting, .list [.text "e"]]
    ((g.buildDeclared inserting).error? = some (.insertion (.text "x")) ∧
      g.OpenlyGrows (g.buildDeclared inserting).graph [⟨'a', "a", false⟩, ⟨'b', "b", false⟩]) ∧
    (g.buildDeclared (.list [.tuple [.text "", .text "x"], .null])).graph = g ∧
    g.buildEach rules =
      (((g.buildRules [⟨[.literal "d"]⟩]).buildDeclared inserting).graph,
        some (.insertion (.text "x"))) := by
  intro g inserting rules
  obtain ⟨hinsertion, hitem, hrules⟩ := failing_build (g := g) List.mem_cons_self
  refine ⟨?_, ?_, ?_⟩
  · obtain ⟨herror, steps, hsteps, hgrows⟩ :=
      hinsertion inserting [.literal "ab"] [.literal "c"] "x" rfl (by decide) (by decide)
    obtain rfl : [Alignment.identity "ab"] = steps := Except.ok.inj hsteps
    exact ⟨herror, hgrows⟩
  · obtain ⟨value, -, -, -, hgraph⟩ := hitem (.list [.tuple [.text "", .text "x"], .null]) .null
      _ (.invalidItem .null) rfl (by simp) rfl
    exact hgraph
  · obtain ⟨hbuilt, htexts⟩ := hrules rules inserting [.list [.text "d"]] [.list [.text "e"]]
      (.insertion (.text "x")) rfl rfl rfl
    rw [hbuilt, (htexts [⟨[.literal "d"]⟩] rfl).1]

end Graph

end RuleTransducer
