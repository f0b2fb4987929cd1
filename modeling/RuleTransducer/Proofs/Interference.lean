import RuleTransducer.Proofs.Admission
import RuleTransducer.Proofs.Layers

/-! Interference. All edges that a traversal can take on a text lead to vertices that have consumed
a beginning of the text, and all edges of a rule to vertices that have consumed a beginning of its
input. So a rule whose input begins otherwise than the text has no part in the traversal: threaded
or not, of the edges that begin as the text does the same are inserted in the same order, although
other vertices and edges come in between. -/

namespace RuleTransducer

variable {α : Type}

/-- Whether what is consumed behind an edge begins as a text does. -/
def Edge.Opens (e : Edge α) (text : Text) : Prop :=
  e.target.consumed.toList.head? = text.toList.head?

instance (e : Edge α) (text : Text) : Decidable (e.Opens text) :=
  inferInstanceAs (Decidable (_ = _))

/-- Whether a rule reads nothing or its input does not begin as a text does. -/
def Rule.IsUnrelated (rule : Rule) (text : Text) : Prop :=
  rule.inputText = "" ∨ rule.inputText.toList.head? ≠ text.toList.head?

instance (rule : Rule) (text : Text) : Decidable (rule.IsUnrelated text) :=
  inferInstanceAs (Decidable (_ ∨ _))

namespace Graph

/-- Two graphs with one root that hold the same edges that begin as a text does, in the same
order. -/
structure AgreesOn (text : Text) (g g' : Graph α) : Prop where
  root : g.root = g'.root
  edges : (g.edges.filter fun e => e.Opens text) = g'.edges.filter fun e => e.Opens text

theorem AgreesOn.refl (text : Text) (g : Graph α) : AgreesOn text g g := ⟨rfl, rfl⟩

theorem AgreesOn.trans {text : Text} {g g' g'' : Graph α} (h : AgreesOn text g g')
    (h' : AgreesOn text g' g'') : AgreesOn text g g'' :=
  ⟨h.root.trans h'.root, h.edges.trans h'.edges⟩

/-! ### Insertions in two graphs -/

section Insertion
variable [BEq α] [LawfulBEq α] {text : Text} {g g' : Graph α}

/-- What a filter keeps of the edges after an insertion is told by what it kept before. -/
theorem filter_edges_addEdge (g : Graph α) (e : Edge α) (p : Edge α → Bool) :
    (g.addEdge e).1.edges.filter p =
      if p e then
        if (g.edges.filter p).contains e then g.edges.filter p else g.edges.filter p ++ [e]
      else g.edges.filter p := by
  rw [edges_addEdge]
  cases hp : p e with
  | true =>
    have hknown : (g.edges.filter p).contains e = g.edges.contains e := by simp [hp]
    rw [if_pos rfl, hknown]
    split <;> simp [hp]
  | false =>
    rw [if_neg Bool.false_ne_true]
    split <;> simp [hp]

/-- An edge that begins otherwise changes nothing for the text. -/
theorem agreesOn_addEdge {e : Edge α} (he : ¬e.Opens text) : AgreesOn text (g.addEdge e).1 g := by
  refine ⟨(grows_addEdge g e).root, ?_⟩
  rw [filter_edges_addEdge, if_neg (mt of_decide_eq_true he)]

theorem agreesOn_addEdges {es : List (Edge α)} (hes : ∀ e ∈ es, ¬e.Opens text) :
    AgreesOn text (g.addEdges es) g := by
  induction es generalizing g with
  | nil => exact .refl text g
  | cons e es ih =>
    obtain ⟨he, hes⟩ := List.forall_mem_cons.mp hes
    exact (ih hes).trans (agreesOn_addEdge he)

/-- Graphs that agree do so after the same insertion. -/
theorem AgreesOn.addEdge (h : AgreesOn text g g') (e : Edge α) :
    AgreesOn text (g.addEdge e).1 (g'.addEdge e).1 := by
  refine ⟨?_, ?_⟩
  · rw [(grows_addEdge g e).root, (grows_addEdge g' e).root, h.root]
  · rw [filter_edges_addEdge, filter_edges_addEdge, h.edges]

theorem AgreesOn.addEdges (h : AgreesOn text g g') (es : List (Edge α)) :
    AgreesOn text (g.addEdges es) (g'.addEdges es) := by
  induction es generalizing g g' with
  | nil => exact h
  | cons e es ih => exact ih (h.addEdge e)

/-- Graphs that agree do so after the same rules. -/
theorem AgreesOn.buildRules [Fragment α] (h : AgreesOn text g g') (rules : List Rule) :
    AgreesOn text (g.buildRules rules) (g'.buildRules rules) := by
  rw [buildRules_eq_addEdges, buildRules_eq_addEdges, h.root]
  exact h.addEdges _

end Insertion

/-! ### The edges of a rule -/

/-- What is consumed behind an edge of a rule begins as the input of the rule does. -/
theorem opens_of_mem_chain [Fragment α] {rule : Rule} (halign : rule.Alignable) {v : Vertex α}
    {e : Edge α} (he : e ∈ chain v "" rule.plan.1) :
    rule.inputText ≠ "" ∧ e.Opens rule.inputText := by
  obtain ⟨i, step, hstep, rfl⟩ := mem_chain_iff.mp he
  rw [Rule.plan_of_alignable halign] at hstep ⊢
  have hread := Rule.map_input_take_steps hstep
  constructor
  · intro hempty
    rw [hempty] at hread
    simp at hread
  · simp only [Edge.Opens, link, Vertex.afterStep, Text.empty_append, Step.readAll, hread,
      Text.toList_ofList, List.head?_take, Nat.add_one_ne_zero, if_false]

/-- Threading an unrelated rule changes nothing for a text. -/
theorem agreesOn_build [BEq α] [LawfulBEq α] [Fragment α] {text : Text} (g : Graph α)
    {rule : Rule} (halign : rule.Alignable) (h : rule.IsUnrelated text) :
    AgreesOn text (g.build rule) g := by
  rw [build_eq]
  apply agreesOn_addEdges
  intro e he hopens
  obtain ⟨hreads, hrule⟩ := opens_of_mem_chain halign he
  obtain hempty | hother := h
  · exact hreads hempty
  · exact hother (hrule.symm.trans hopens)

/-! ### Traversals of two graphs -/

section Traversal
variable [BEq α] [LawfulBEq α] {text : Text} {g g' : Graph α}

/-- Where a beginning of a text is consumed, the edges on the next code point begin as the text
does. -/
theorem outEdgesOn_eq_filter (hg : ∀ e ∈ g.edges, e.Layered) {v : Vertex α} {c : CodePoint}
    {rest : List CodePoint} (hv : v.consumed.toList ++ c :: rest = text.toList) :
    g.outEdgesOn v (Text.singleton c) =
      (g.edges.filter fun e => e.Opens text).filter
        fun e => e.source == v && e.label.input == Text.singleton c := by
  rw [outEdgesOn, List.filter_filter]
  apply List.filter_congr
  intro e he
  by_cases htaken : e.source = v ∧ e.label.input = Text.singleton c
  · obtain ⟨rfl, hinput⟩ := htaken
    have hopens : e.Opens text := by
      rw [Edge.Opens, (hg e he).consumed, hinput, ← hv]
      cases hconsumed : e.source.consumed.toList <;> simp [hconsumed]
    simp [hopens]
  · have hother : (e.source == v && e.label.input == Text.singleton c) = false := by
      simpa using htaken
    rw [hother, Bool.false_and]

/-- Graphs in layers that agree on a text have the same accepting paths over what is left of it, in
the same order. -/
theorem AgreesOn.paths_eq (h : AgreesOn text g g') (hg : ∀ e ∈ g.edges, e.Layered)
    (hg' : ∀ e ∈ g'.edges, e.Layered) {v : Vertex α} {input : List CodePoint}
    (hv : v.consumed.toList ++ input = text.toList) : g.paths v input = g'.paths v input := by
  induction input generalizing v with
  | nil => rfl
  | cons c rest ih =>
    have hout : g.outEdgesOn v (Text.singleton c) = g'.outEdgesOn v (Text.singleton c) := by
      rw [outEdgesOn_eq_filter hg hv, outEdgesOn_eq_filter hg' hv, h.edges]
    rw [paths, paths, ← hout]
    apply List.flatMap_congr
    intro e he
    obtain ⟨hmem, rfl, hinput⟩ := mem_outEdgesOn.mp he
    have htarget : e.target.consumed.toList ++ rest = text.toList := by
      rw [(hg e hmem).consumed, hinput, ← hv]
      simp
    rw [ih htarget]

/-- Rules that agree on a text transduce it alike. -/
theorem AgreesOn.transduce_eq {rules rules' : List Rule}
    (h : AgreesOn text (empty.buildRules rules : Graph Text) (empty.buildRules rules')) :
    (empty.buildRules rules).transduce text = (empty.buildRules rules').transduce text := by
  have hroot : (empty.buildRules rules : Graph Text).root = .root :=
    (grows_buildRules empty rules).root
  have hstart : (Vertex.root : Vertex Text).consumed.toList ++ text.toList = text.toList := rfl
  rw [transduce_eq_map_paths, transduce_eq_map_paths, ← h.root, hroot,
    h.paths_eq (fun _ => layered_buildRules) (fun _ => layered_buildRules) hstart]

end Traversal

/-- Valid rules over texts compile. Of rules that compile any one can be taken out, and every text
is parsed as before if the rule reads nothing or its input does not begin as the text does: the
outputs are the same, each as often and in the same order. -/
theorem parse_of_unrelated (before : List Datum) (declared : Datum) (after : List Datum) :
    ((∀ rule ∈ before ++ declared :: after,
        rule.materialised.validate.isValid = true ∧ rule.IsTextual) →
      ∃ g, compile? (before ++ declared :: after) = .ok g) ∧
    ∀ g, compile? (before ++ declared :: after) = .ok g →
      ∃ g' rule, compile? (before ++ after) = .ok g' ∧ declared.textRule? = some rule ∧
        ∀ text, rule.IsUnrelated text → g.parse text = g'.parse text := by
  refine ⟨exists_compile?_of_isValid, fun g hcompile => ?_⟩
  obtain ⟨hadmissible, rfl⟩ := compile?_eq_ok_iff_filterMap.mp hcompile
  obtain ⟨rule, hrule, halign⟩ := (hadmissible declared (by simp)).exists_alignable
  have hothers : ∀ other ∈ before ++ after, other.IsAdmissible := by
    intro other hother
    apply hadmissible
    simp only [List.mem_append, List.mem_cons] at hother ⊢
    exact hother.imp_right .inr
  refine ⟨_, rule, compile?_eq_ok_iff_filterMap.mpr ⟨hothers, rfl⟩, hrule, fun text htext => ?_⟩
  rw [parse, parse]
  refine congrArg Outcome.ofOutputs (AgreesOn.transduce_eq ?_)
  -- the graphs part at the rule, agree behind it and keep agreeing through the rules that follow
  rw [List.filterMap_append, List.filterMap_append, List.filterMap_cons_some hrule,
    buildRules_append, buildRules_append]
  exact (agreesOn_build _ halign htext).buildRules _

/-- Two rules for one text, with a rule in between that shares its second code point with them. -/
def interleaved : List Datum :=
  [.list [.tuple [.text "a", .text "y"], .text "b"], .list [.text "bb"],
    .list [.tuple [.text "a", .text "x"], .text "b"]]

theorem parse_of_unrelated_interleaved :
    Rule.IsUnrelated ⟨[.literal "bb"]⟩ "ab" ∧
      ∃ g g', compile? interleaved = .ok g ∧ compile? (interleaved.eraseIdx 1) = .ok g' ∧
        g.stats = ⟨6, 6, 2⟩ ∧ g'.stats = ⟨4, 4, 1⟩ ∧ g.parse "ab" = g'.parse "ab" ∧
        g'.parse "ab" = .ambiguous ["yb", "xb"] := by
  have hunrelated : Rule.IsUnrelated ⟨[.literal "bb"]⟩ "ab" := by decide
  obtain ⟨g, hg⟩ : ∃ g, compile? interleaved = .ok g := ⟨_, rfl⟩
  obtain ⟨g', rule, hg', hrule, hparse⟩ :=
    (parse_of_unrelated (interleaved.take 1) (.list [.text "bb"]) (interleaved.drop 2)).2 g hg
  obtain rfl : ⟨[.literal "bb"]⟩ = rule := Option.some.inj hrule
  refine ⟨hunrelated, g, g', hg, hg', ?_, ?_, hparse "ab" hunrelated, ?_⟩
  · cases hg
    rfl
  · cases hg'
    rfl
  · cases hg'
    rw [parse, transduce, transduceFrom_eq_walk]
    decide

end Graph

end RuleTransducer
