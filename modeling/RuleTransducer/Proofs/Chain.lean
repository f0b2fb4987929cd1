import RuleTransducer.Proofs.Growth
import RuleTransducer.Proofs.Paths
import RuleTransducer.Proofs.Plan

/-! The chain of edges of a run of steps. Threading steps inserts the edges of their chain.
The edge of a step knows the input read so far, the fragment of the step and the one before
it, and whether it closes, and nothing else of the steps before it; so two runs of steps
share an edge where they agree in these. Where at most the last step closes, a chain lies in
layers by the input consumed and no edge leaves a terminal vertex, and in a graph of such
chains an accepting path is itself the chain of what it reads and emits. -/

namespace RuleTransducer

open RuleTransducer.Alignment

/-- The input that steps read. -/
def Step.readAll (steps : List Step) : Text := Text.ofList (steps.map Step.input)

theorem Step.readAll_singleton (step : Step) : readAll [step] = Text.singleton step.input :=
  Text.singleton_eq_ofList.symm

theorem Step.readAll_append (s t : List Step) : readAll (s ++ t) = readAll s ++ readAll t := by
  rw [readAll, List.map_append, Text.ofList_append]
  rfl

theorem Step.readAll_cons (step : Step) (steps : List Step) :
    readAll (step :: steps) = Text.singleton step.input ++ readAll steps := by
  rw [← List.singleton_append, readAll_append, readAll_singleton]

/-- An edge between layers: it consumes one code point, its target holds what is consumed and
emitted, and its source is not terminal. -/
structure Edge.Layered {α : Type} (e : Edge α) : Prop where
  input : ∃ c, e.label.input = Text.singleton c
  target : e.target =
    .afterStep (e.source.consumed ++ e.label.input) e.label.output e.target.isTerminal
  source : e.source.isTerminal = false

@[simp] theorem Vertex.isTerminal_afterStep {α : Type} (consumed : Text) (emitted : α)
    (closing : Bool) : (afterStep consumed emitted closing).isTerminal = closing := by
  cases closing <;> rfl

/-- A layered edge is told by its source, what it consumes and emits, and whether it closes. -/
theorem Edge.Layered.eq_mk {α : Type} {e : Edge α} (h : e.Layered) {c : CodePoint}
    (hinput : e.label.input = Text.singleton c) :
    e = ⟨e.source, .afterStep (e.source.consumed ++ Text.singleton c) e.label.output
      e.target.isTerminal, ⟨Text.singleton c, e.label.output⟩⟩ := by
  obtain ⟨source, target, input, output⟩ := e
  subst hinput
  exact congrArg (Edge.mk source · _) h.target

variable {α : Type} [Fragment α]

namespace Graph

/-- The edges of a run of steps from a vertex, behind what is consumed. -/
def chain (v : Vertex α) (consumed : Text) : List Step → List (Edge α)
  | [] => []
  | step :: rest =>
    let consumed := consumed ++ Text.singleton step.input
    let target := Vertex.afterStep consumed (Fragment.ofText step.output) step.closing
    ⟨v, target, step.label⟩ :: chain target consumed rest

/-! ### Threading -/

section Threading
variable [BEq α]

/-- Threading a run of steps inserts its chain. -/
theorem graph_follow (c : Cursor α) (steps : List Step) :
    (c.follow steps).graph = c.graph.addEdges (chain c.vertex c.consumed steps) := by
  induction steps generalizing c with
  | nil => rfl
  | cons step steps ih =>
    have hstep : c.follow (step :: steps) = (c.advance step.label step.closing).follow steps := rfl
    rw [hstep, ih]
    rfl

theorem build_eq (g : Graph α) (rule : Rule) :
    g.build rule = g.addEdges (chain g.root "" rule.plan.1) := graph_follow _ _

theorem grows_build (g : Graph α) (rule : Rule) : g.Grows (g.build rule) := by
  rw [build_eq]
  exact grows_addEdges _ _

/-- Threads rules one after another. -/
def buildRules (g : Graph α) (rules : List Rule) : Graph α := rules.foldl build g

theorem buildRules_append (g : Graph α) (rules later : List Rule) :
    g.buildRules (rules ++ later) = (g.buildRules rules).buildRules later := List.foldl_append

/-- Threading rules inserts their chains one after another. -/
theorem buildRules_eq_addEdges (g : Graph α) (rules : List Rule) :
    g.buildRules rules = g.addEdges (rules.flatMap fun rule => chain g.root "" rule.plan.1) := by
  induction rules generalizing g with
  | nil => rfl
  | cons rule rules ih =>
    have hcons : g.buildRules (rule :: rules) = (g.build rule).buildRules rules := rfl
    rw [hcons, ih, (grows_build g rule).root, build_eq, List.flatMap_cons, addEdges_append]

theorem grows_buildRules (g : Graph α) (rules : List Rule) : g.Grows (g.buildRules rules) := by
  rw [buildRules_eq_addEdges]
  exact grows_addEdges _ _

/-- A graph holds its old edges and the chains of the rules threaded through it. -/
theorem mem_edges_buildRules [LawfulBEq α] {g : Graph α} {rules : List Rule} {e : Edge α} :
    e ∈ (g.buildRules rules).edges ↔
      e ∈ g.edges ∨ ∃ rule ∈ rules, e ∈ chain g.root "" rule.plan.1 := by
  rw [buildRules_eq_addEdges, mem_edges_addEdges, List.mem_flatMap]

/-- A graph holds its old vertices and the ends of the chains of the rules threaded through it. -/
theorem mem_vertices_buildRules [LawfulBEq α] {g : Graph α} (hg : g.HoldsEnds) {rules : List Rule}
    {v : Vertex α} :
    v ∈ (g.buildRules rules).vertices ↔
      v ∈ g.vertices ∨
        ∃ rule ∈ rules, ∃ e ∈ chain g.root "" rule.plan.1, v = e.source ∨ v = e.target := by
  rw [buildRules_eq_addEdges, mem_vertices_addEdges hg]
  refine or_congr_right ?_
  constructor
  · rintro ⟨e, he, hend⟩
    obtain ⟨rule, hrule, hchain⟩ := List.mem_flatMap.mp he
    exact ⟨rule, hrule, e, hchain, hend⟩
  · rintro ⟨rule, hrule, e, hchain, hend⟩
    exact ⟨e, List.mem_flatMap.mpr ⟨rule, hrule, hchain⟩, hend⟩

theorem nodup_edges_buildRules [LawfulBEq α] {g : Graph α} (h : g.edges.Nodup)
    (rules : List Rule) : (g.buildRules rules).edges.Nodup := by
  rw [buildRules_eq_addEdges]
  exact nodup_edges_addEdges h _

theorem nodup_vertices_buildRules [LawfulBEq α] {g : Graph α} (h : g.vertices.Nodup)
    (rules : List Rule) : (g.buildRules rules).vertices.Nodup := by
  rw [buildRules_eq_addEdges]
  exact nodup_vertices_addEdges h _

end Threading

/-! ### Chains as paths -/

theorem emitted_chain (v : Vertex α) (consumed : Text) (steps : List Step) :
    emitted (chain v consumed steps) = steps.map fun step => Fragment.ofText step.output := by
  induction steps generalizing v consumed with
  | nil => rfl
  | cons step steps ih => exact congrArg (_ :: ·) (ih _ _)

/-- A graph that holds a chain with a closed end accepts what the chain reads. -/
theorem accepts_chain {g : Graph α} {v : Vertex α} {consumed : Text} {ps : List (CodePoint × Text)}
    (hps : ps ≠ []) (h : ∀ e ∈ chain v consumed (closeLast ps), e ∈ g.edges) :
    g.Accepts v (ps.map Prod.fst) (chain v consumed (closeLast ps)) := by
  induction ps generalizing v consumed with
  | nil => exact absurd rfl hps
  | cons p ps ih =>
    cases ps with
    | nil => exact ⟨h _ List.mem_cons_self, rfl, rfl, rfl⟩
    | cons q ps =>
      obtain ⟨hfirst, hrest⟩ := List.forall_mem_cons.mp h
      exact ⟨hfirst, rfl, rfl, ih (List.cons_ne_nil q ps) hrest⟩

/-- A graph that holds the chain of a rule that closes accepts the rule's input along it. -/
theorem accepts_chain_plan {g : Graph α} {v : Vertex α} {rule : Rule} (halign : rule.Alignable)
    (hcloses : rule.closes) (h : ∀ e ∈ chain v "" rule.plan.1, e ∈ g.edges) :
    g.Accepts v rule.inputText.toList (chain v "" rule.plan.1) := by
  have hplan : rule.plan.1 = closeLast rule.pairs := by
    rw [Rule.plan_of_alignable halign]
    exact if_pos hcloses
  rw [hplan] at h ⊢
  rw [← Rule.map_fst_pairs]
  exact accepts_chain (Rule.pairs_ne_nil_of_closes hcloses) h

/-! ### Links -/

/-- Where a run of steps leads. -/
def stop (v : Vertex α) (consumed : Text) (steps : List Step) : Vertex α :=
  match steps.getLast? with
  | none => v
  | some last =>
    .afterStep (consumed ++ Step.readAll steps) (Fragment.ofText last.output) last.closing

/-- The edge of a step behind other steps. -/
def link (v : Vertex α) (consumed : Text) (before : List Step) (step : Step) : Edge α :=
  ⟨stop v consumed before,
    .afterStep (consumed ++ Step.readAll (before ++ [step])) (Fragment.ofText step.output)
      step.closing,
    step.label⟩

theorem stop_append_singleton (v : Vertex α) (consumed : Text) (before : List Step)
    (step : Step) :
    stop v consumed (before ++ [step]) =
      .afterStep (consumed ++ Step.readAll (before ++ [step])) (Fragment.ofText step.output)
        step.closing := by
  simp [stop]

/-- The links behind the first step of a run are links of the run. -/
theorem link_cons (v : Vertex α) (consumed : Text) (first : Step) (before : List Step)
    (step : Step) :
    link (.afterStep (consumed ++ Text.singleton first.input) (Fragment.ofText first.output)
        first.closing) (consumed ++ Text.singleton first.input) before step =
      link v consumed (first :: before) step := by
  have hread (steps : List Step) : consumed ++ Step.readAll (first :: steps) =
      consumed ++ Text.singleton first.input ++ Step.readAll steps := by
    rw [Step.readAll_cons, Text.append_assoc]
  have hstop : stop (.afterStep (consumed ++ Text.singleton first.input)
        (Fragment.ofText first.output) first.closing) (consumed ++ Text.singleton first.input)
        before = stop v consumed (first :: before) := by
    cases before using List.reverseRecOn with
    | nil =>
      have hfirst := stop_append_singleton v consumed [] first
      rw [List.nil_append, Step.readAll_singleton] at hfirst
      exact hfirst.symm
    | append_singleton before last =>
      rw [stop_append_singleton, ← List.cons_append, stop_append_singleton, List.cons_append, hread]
  rw [link, link, hstop, List.cons_append, hread]

/-- A chain is a run of links. -/
theorem getElem?_chain (v : Vertex α) (consumed : Text) (steps : List Step) (i : ℕ) :
    (chain v consumed steps)[i]? = steps[i]?.map (link v consumed (steps.take i)) := by
  induction steps generalizing v consumed i with
  | nil => rfl
  | cons step steps ih =>
    cases i with
    | zero => simp only [chain, link, stop, Step.readAll_singleton, List.getElem?_cons_zero,
        List.take_zero, List.nil_append, List.getLast?_nil, Option.map_some]
    | succ i =>
      rw [chain, List.getElem?_cons_succ, List.getElem?_cons_succ, List.take_succ_cons, ih]
      exact congrArg (steps[i]?.map ·) (funext (link_cons v consumed step _))

theorem mem_chain_iff {v : Vertex α} {consumed : Text} {steps : List Step} {e : Edge α} :
    e ∈ chain v consumed steps ↔
      ∃ i step, steps[i]? = some step ∧ e = link v consumed (steps.take i) step := by
  simp only [List.mem_iff_getElem?, getElem?_chain, Option.map_eq_some_iff, eq_comm (a := e)]

/-! ### Layers -/

theorem layered_of_mem_chain {steps : List Step} (hsteps : OnlyLastCloses steps) {v : Vertex α}
    (hv : v.isTerminal = false) {e : Edge α} (he : e ∈ chain v v.consumed steps) : e.Layered := by
  induction steps generalizing v with
  | nil => exact absurd he List.not_mem_nil
  | cons step steps ih =>
    obtain ⟨hopen, hrest⟩ := List.pairwise_cons.mp hsteps
    obtain rfl | he := List.mem_cons.mp he
    · exact ⟨⟨step.input, rfl⟩, by simp [Step.label], hv⟩
    · cases steps with
      | nil => exact absurd he List.not_mem_nil
      | cons next steps =>
        have hstep : step.closing = false := hopen next List.mem_cons_self
        exact ih hrest (by rw [Vertex.isTerminal_afterStep, hstep]) he

/-- In a graph of layers an accepting path is the chain of what it reads and emits. -/
theorem eq_chain_of_accepts {g : Graph Text} (hg : ∀ e ∈ g.edges, e.Layered) {v : Vertex Text}
    {input : List CodePoint} {p : List (Edge Text)} (h : g.Accepts v input p) :
    p = chain v v.consumed (closeLast (input.zip (emitted p))) := by
  induction input generalizing v p with
  | nil =>
    cases p with
    | nil => rfl
    | cons e q => exact h.elim
  | cons c rest ih =>
    obtain _ | ⟨e, q⟩ := p
    · exact h.elim
    obtain ⟨he, rfl, hinput, hq⟩ := h
    have heq := (hg e he).eq_mk hinput
    obtain _ | ⟨c', rest⟩ := rest
    · obtain _ | ⟨f, q⟩ := q
      · have hend : e.target.isTerminal = true := hq
        rw [hend] at heq
        exact congrArg ([·]) heq
      · exact hq.elim
    · obtain _ | ⟨f, q⟩ := q
      · exact hq.elim
      · -- the next edge leaves the target, which is therefore open
        have hopen : e.target.isTerminal = false := hq.2.1 ▸ (hg f hq.1).source
        rw [hopen] at heq
        have htarget : e.target = .afterStep (e.source.consumed ++ Text.singleton c)
            e.label.output false := congrArg Edge.target heq
        have hrest := ih hq
        rw [htarget] at hrest
        exact congrArg₂ List.cons heq hrest

/-! ### Shared links -/

/-- Open steps that read the same lead to one vertex if they emit the same fragment last. -/
theorem stop_root_eq_iff {before before' : List Step} (hopen : ∀ s ∈ before, s.closing = false)
    (hopen' : ∀ s ∈ before', s.closing = false)
    (hread : before.map Step.input = before'.map Step.input) :
    (stop .root "" before : Vertex Text) = stop .root "" before' ↔
      before.getLast?.map Step.output = before'.getLast?.map Step.output := by
  cases before using List.reverseRecOn with
  | nil =>
    rw [List.map_nil, eq_comm, List.map_eq_nil_iff] at hread
    simp [hread]
  | append_singleton before last =>
    cases before' using List.reverseRecOn with
    | nil => simp at hread
    | append_singleton before' last' =>
      have hlast := hopen last (by simp)
      have hlast' := hopen' last' (by simp)
      rw [stop_append_singleton, stop_append_singleton, hlast, hlast', Step.readAll,
        Step.readAll, hread]
      simp [Vertex.afterStep]

/-- Two links behind open steps are the same if they read the same, come from the same
fragment, emit the same and close alike. -/
theorem link_root_eq_iff {before before' : List Step} {step step' : Step}
    (hopen : ∀ s ∈ before, s.closing = false) (hopen' : ∀ s ∈ before', s.closing = false) :
    (link .root "" before step : Edge Text) = link .root "" before' step' ↔
      (before ++ [step]).map Step.input = (before' ++ [step']).map Step.input ∧
        before.getLast?.map Step.output = before'.getLast?.map Step.output ∧
        step.output = step'.output ∧ step.closing = step'.closing := by
  have hsplit (h : (before ++ [step]).map Step.input = (before' ++ [step']).map Step.input) :
      before.map Step.input = before'.map Step.input ∧ step.input = step'.input := by
    simpa [List.map_append] using h
  constructor
  · intro h
    obtain ⟨hsource, htarget, -⟩ := Edge.mk.inj h
    obtain ⟨hread, houtput, -⟩ := Vertex.mk.inj htarget
    rw [Text.empty_append, Text.empty_append, Step.readAll, Step.readAll,
      Text.ofList_inj] at hread
    have hclosing := congrArg Vertex.isTerminal htarget
    rw [Vertex.isTerminal_afterStep, Vertex.isTerminal_afterStep] at hclosing
    exact ⟨hread, (stop_root_eq_iff hopen hopen' (hsplit hread).1).mp hsource, houtput, hclosing⟩
  · rintro ⟨hread, hlast, houtput, hclosing⟩
    obtain ⟨hbefore, hinput⟩ := hsplit hread
    rw [link, link, (stop_root_eq_iff hopen hopen' hbefore).mpr hlast, Step.readAll,
      Step.readAll, hread, houtput, hclosing, Step.label, Step.label, hinput, houtput]

/-- A step of one run of steps has its link in the chain of another where both have read the
same, come from the same fragment, emit the same and close alike. -/
theorem link_mem_chain_iff {steps steps' : List Step} (hsteps : OnlyLastCloses steps)
    (hsteps' : OnlyLastCloses steps') {i : ℕ} {step : Step} (hstep : steps[i]? = some step) :
    (link .root "" (steps.take i) step : Edge Text) ∈ chain .root "" steps' ↔
      ∃ step', steps'[i]? = some step' ∧
        (steps.take (i + 1)).map Step.input = (steps'.take (i + 1)).map Step.input ∧
        (steps.take i).getLast?.map Step.output = (steps'.take i).getLast?.map Step.output ∧
        step.output = step'.output ∧ step.closing = step'.closing := by
  have htake {l : List Step} {j : ℕ} {s : Step} (h : l[j]? = some s) :
      l.take j ++ [s] = l.take (j + 1) := by rw [List.take_add_one, h]; rfl
  rw [mem_chain_iff]
  constructor
  · rintro ⟨j, step', hstep', hlink⟩
    rw [link_root_eq_iff (fun _ => hsteps.closing_of_mem_take hstep)
      (fun _ => hsteps'.closing_of_mem_take hstep'), htake hstep, htake hstep'] at hlink
    -- both have read as much, so the links stand at one place
    obtain rfl : i = j := by
      have hlength := congrArg List.length hlink.1
      have hi := (List.getElem?_eq_some_iff.mp hstep).1
      have hj := (List.getElem?_eq_some_iff.mp hstep').1
      simp only [List.length_map, List.length_take] at hlength
      omega
    exact ⟨step', hstep', hlink⟩
  · rintro ⟨step', hstep', hlink⟩
    refine ⟨i, step', hstep', ?_⟩
    rw [link_root_eq_iff (fun _ => hsteps.closing_of_mem_take hstep)
      (fun _ => hsteps'.closing_of_mem_take hstep'), htake hstep, htake hstep']
    exact hlink

/-! ### Compiled graphs -/

theorem layered_buildRules {rules : List Rule} {e : Edge Text}
    (h : e ∈ (empty.buildRules rules).edges) : e.Layered := by
  obtain h | ⟨rule, -, he⟩ := mem_edges_buildRules.mp h
  · exact absurd h List.not_mem_nil
  · exact layered_of_mem_chain rule.onlyLastCloses_plan rfl he

/-- An edge of a compiled graph is in the chain of one of its rules. -/
theorem mem_edges_empty_buildRules {rules : List Rule} {e : Edge Text} :
    e ∈ (empty.buildRules rules).edges ↔ ∃ rule ∈ rules, e ∈ chain .root "" rule.plan.1 := by
  rw [mem_edges_buildRules]
  exact or_iff_right List.not_mem_nil

end Graph

end RuleTransducer
