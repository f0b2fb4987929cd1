import Mathlib.Data.Finset.Card
import RuleTransducer.Proofs.Admission
import RuleTransducer.Proofs.Layers

/-! The size of a compiled graph. The vertex behind a step of a rule is told by the input read so
far, the fragment of the step and whether it closes the rule, and the edge to it by these and the
fragment of the step before. So the vertices and edges are as many as the rules differ in these,
whatever code points the texts are made of, and the terminal vertices as many as the inputs and
last fragments of the rules that close. -/

namespace RuleTransducer

/-- A list without repetitions of elements that are told apart by their keys is as long as there are
keys. -/
theorem length_eq_card_toFinset {β γ : Type} [DecidableEq γ] (key : β → γ) {l : List β}
    (hl : l.Nodup) (hkey : ∀ a ∈ l, ∀ b ∈ l, key a = key b → a = b) {keys : List γ}
    (hkeys : ∀ k, k ∈ keys ↔ ∃ a ∈ l, key a = k) : l.length = keys.toFinset.card := by
  have hset : keys.toFinset = (l.map key).toFinset := by
    ext k
    rw [List.mem_toFinset, List.mem_toFinset, hkeys, List.mem_map]
  rw [hset, List.toFinset_card_of_nodup (hl.map_on hkey), List.length_map]

/-! ### Landings and crossings -/

/-- Where a step of a rule leads: what the rule has read, the fragment of the step, and whether it
closes the rule. -/
structure Landing where
  consumed : Text
  fragment : Text
  closing : Bool
  deriving DecidableEq

/-- Where a step of a rule leads, and the fragment of the step before, if there is one. -/
structure Crossing where
  before? : Option Text
  landing : Landing
  deriving DecidableEq

namespace Rule

/-- Where the step at an index leads. -/
def landingAt (rule : Rule) (i : ℕ) (fragment : Text) : Landing :=
  ⟨Text.ofList (rule.inputText.toList.take (i + 1)), fragment,
    rule.closes && i + 1 = rule.fragments.length⟩

/-- The crossings of a rule, one for each step. -/
def crossings (rule : Rule) : List Crossing :=
  rule.fragments.zipIdx.map fun (fragment, i) =>
    ⟨(rule.fragments.take i).getLast?, rule.landingAt i fragment⟩

/-- The landings of a rule, one for each step. -/
def landings (rule : Rule) : List Landing := rule.crossings.map Crossing.landing

/-- The input and the last fragment of a rule that closes. -/
def ending? (rule : Rule) : Option (Text × Text) :=
  if rule.closes then rule.fragments.getLast?.map fun last => (rule.inputText, last) else none

theorem getElem?_crossings (rule : Rule) (i : ℕ) :
    rule.crossings[i]? = rule.fragments[i]?.map fun fragment =>
      ⟨(rule.fragments.take i).getLast?, rule.landingAt i fragment⟩ := by
  rw [crossings, List.getElem?_map, List.getElem?_zipIdx, Option.map_map, Nat.zero_add]
  rfl

theorem mem_landings_iff {rule : Rule} {landing : Landing} :
    landing ∈ rule.landings ↔
      ∃ i fragment, rule.fragments[i]? = some fragment ∧ rule.landingAt i fragment = landing := by
  simp only [landings, List.mem_iff_getElem?, List.getElem?_map, getElem?_crossings,
    Option.map_map, Option.map_eq_some_iff, Function.comp_apply]

/-- A rule lands closed only at its end. -/
theorem mem_landings_closed_iff {rule : Rule} {consumed fragment : Text} :
    ⟨consumed, fragment, true⟩ ∈ rule.landings ↔ rule.ending? = some (consumed, fragment) := by
  have hwhole {i : ℕ} (hi : i + 1 = rule.fragments.length) :
      Text.ofList (rule.inputText.toList.take (i + 1)) = rule.inputText := by
    rw [hi, length_fragments, List.take_length, Text.ofList_toList]
  rw [mem_landings_iff, ending?]
  constructor
  · rintro ⟨i, last, hlast, hlanding⟩
    obtain ⟨rfl, rfl, hclosing⟩ := Landing.mk.inj hlanding
    obtain ⟨hcloses, hend⟩ := (Bool.and_eq_true _ _).mp hclosing
    have hend : i + 1 = rule.fragments.length := of_decide_eq_true hend
    rw [hwhole hend, if_pos hcloses, List.getLast?_eq_getElem?, ← hend, Nat.add_sub_cancel, hlast]
    rfl
  · intro hending
    split at hending
    case isTrue hcloses =>
      obtain ⟨last, hlast, hpair⟩ := Option.map_eq_some_iff.mp hending
      obtain ⟨rfl, rfl⟩ := Prod.mk.inj hpair
      have hne : rule.fragments ≠ [] := List.ne_nil_of_mem (List.mem_of_getLast? hlast)
      have hend : rule.fragments.length - 1 + 1 = rule.fragments.length :=
        Nat.sub_add_cancel (List.length_pos_of_ne_nil hne)
      rw [List.getLast?_eq_getElem?] at hlast
      refine ⟨_, last, hlast, ?_⟩
      rw [landingAt, hwhole hend, hcloses, hend]
      simp
    case isFalse => cases hending

end Rule

/-! ### What vertices and edges tell -/

/-- What a vertex tells, were it one that a step leads to. -/
def Vertex.landing (v : Vertex Text) : Landing := ⟨v.consumed, v.emitted, v.isTerminal⟩

/-- What an edge tells. -/
def Edge.crossing (e : Edge Text) : Crossing :=
  ⟨if e.source.status = .initial then none else some e.source.emitted, e.target.landing⟩

/-- Vertices that steps lead to are told apart by their landings. -/
theorem Vertex.eq_of_landing_eq {v w : Vertex Text} (hv : v.status ≠ .initial)
    (hw : w.status ≠ .initial) (h : v.landing = w.landing) : v = w := by
  obtain ⟨consumed, emitted, status⟩ := v
  obtain ⟨consumed', emitted', status'⟩ := w
  obtain ⟨rfl, rfl, hterminal⟩ := Landing.mk.inj h
  cases status <;> cases status' <;> simp_all [Vertex.isTerminal]

/-- Layered edges to one vertex have consumed the same before, and read and emit the same. -/
theorem Edge.Layered.eq_of_target_eq {e e' : Edge Text} (h : e.Layered) (h' : e'.Layered)
    (htarget : e.target = e'.target) :
    e.source.consumed = e'.source.consumed ∧ e.label = e'.label := by
  obtain ⟨c, hc⟩ := h.input
  obtain ⟨c', hc'⟩ := h'.input
  have hconsumed : (e.source.consumed ++ e.label.input).toList =
      (e'.source.consumed ++ e'.label.input).toList := by
    rw [← h.consumed, ← h'.consumed, htarget]
  rw [hc, hc', Text.toList_append, Text.toList_append, Text.toList_singleton,
    Text.toList_singleton] at hconsumed
  obtain ⟨hbefore, hlast⟩ := List.append_inj' hconsumed rfl
  have hinput : e.label.input = e'.label.input := by
    rw [hc, hc', List.singleton_inj.mp hlast]
  have houtput : e.label.output = e'.label.output := by
    rw [← h.emitted, ← h'.emitted, htarget]
  exact ⟨Text.toList_inj.mp hbefore, congrArg₂ Label.mk hinput houtput⟩

namespace Graph

/-- The edge of a step tells what is read up to there and the fragment of the step before. -/
theorem crossing_link (before : List Step) (step : Step) :
    (link .root "" before step).crossing =
      ⟨before.getLast?.map Step.output,
        ⟨Text.ofList ((before ++ [step]).map Step.input), step.output, step.closing⟩⟩ := by
  have hbefore : (if (stop .root "" before : Vertex Text).status = .initial then none
      else some (stop .root "" before : Vertex Text).emitted) =
      before.getLast?.map Step.output := by
    cases before using List.reverseRecOn with
    | nil => rfl
    | append_singleton before last =>
      rw [stop_append_singleton]
      cases last.closing <;> simp [Vertex.afterStep]
  rw [Edge.crossing, link, hbefore, Vertex.landing, Vertex.isTerminal_afterStep, Text.empty_append]
  rfl

/-- The edges of a rule tell its crossings. -/
theorem map_crossing_chain {rule : Rule} (halign : rule.Alignable) :
    (chain .root "" rule.plan.1).map Edge.crossing = rule.crossings := by
  rw [Rule.plan_of_alignable halign]
  refine List.ext_getElem? fun i => ?_
  rw [List.getElem?_map, getElem?_chain, Rule.getElem?_crossings]
  by_cases hi : i < rule.fragments.length
  · obtain ⟨step, hstep, hfragment, hclosing⟩ := Rule.exists_getElem?_steps hi
    have hclosing : step.closing = (rule.closes && i + 1 = rule.fragments.length) := by
      rw [Bool.eq_iff_iff, hclosing, Bool.and_eq_true, decide_eq_true_eq]
    rw [hstep, hfragment, Option.map_some, Option.map_some, Option.map_some, crossing_link,
      Rule.map_input_take_steps hstep, hclosing, ← List.getLast?_map, List.map_take,
      Rule.map_output_steps, Rule.landingAt]
  · have hend : rule.steps.length ≤ i := by
      rw [Rule.length_steps]
      exact Nat.le_of_not_lt hi
    rw [List.getElem?_eq_none hend, List.getElem?_eq_none (Nat.le_of_not_lt hi)]
    rfl

/-- The edges of compiled rules tell the crossings of the rules. -/
theorem mem_flatMap_crossings_iff {rules : List Rule} (halign : ∀ rule ∈ rules, rule.Alignable)
    {crossing : Crossing} :
    crossing ∈ rules.flatMap Rule.crossings ↔
      ∃ e ∈ (empty.buildRules rules).edges, e.crossing = crossing := by
  simp only [List.mem_flatMap, mem_edges_empty_buildRules]
  constructor
  · rintro ⟨rule, hrule, hcrossing⟩
    rw [← map_crossing_chain (halign rule hrule)] at hcrossing
    obtain ⟨e, he, htells⟩ := List.mem_map.mp hcrossing
    exact ⟨e, ⟨rule, hrule, he⟩, htells⟩
  · rintro ⟨e, ⟨rule, hrule, he⟩, rfl⟩
    refine ⟨rule, hrule, ?_⟩
    rw [← map_crossing_chain (halign rule hrule)]
    exact List.mem_map_of_mem he

/-- The ends of the edges of compiled rules tell the landings of the rules. -/
theorem mem_flatMap_landings_iff {rules : List Rule} (halign : ∀ rule ∈ rules, rule.Alignable)
    {landing : Landing} :
    landing ∈ rules.flatMap Rule.landings ↔
      ∃ e ∈ (empty.buildRules rules).edges, e.target.landing = landing := by
  have hmap : rules.flatMap Rule.landings =
      (rules.flatMap Rule.crossings).map Crossing.landing := List.map_flatMap.symm
  rw [hmap, List.mem_map]
  constructor
  · rintro ⟨crossing, hcrossing, rfl⟩
    obtain ⟨e, he, rfl⟩ := (mem_flatMap_crossings_iff halign).mp hcrossing
    exact ⟨e, he, rfl⟩
  · rintro ⟨e, he, rfl⟩
    exact ⟨e.crossing, (mem_flatMap_crossings_iff halign).mpr ⟨e, he, rfl⟩, rfl⟩

/-! ### Trimmed graphs -/

section Trimmed
variable {g : Graph Text} (hg : g.Trimmed)
include hg

/-- The edges of a trimmed graph are told apart by their crossings. -/
theorem Trimmed.eq_of_crossing_eq {e e' : Edge Text} (he : e ∈ g.edges) (he' : e' ∈ g.edges)
    (h : e.crossing = e'.crossing) : e = e' := by
  have hlayered := hg.layered e he
  have hlayered' := hg.layered e' he'
  obtain ⟨hbefore, hlanding⟩ := Crossing.mk.inj h
  have htarget : e.target = e'.target :=
    Vertex.eq_of_landing_eq hlayered.target_status_ne hlayered'.target_status_ne hlanding
  obtain ⟨hconsumed, hlabel⟩ := hlayered.eq_of_target_eq hlayered' htarget
  -- a crossing without a fragment before it starts at the root, which is the one initial vertex
  have hsource : e.source = e'.source := by
    by_cases hinitial : e.source.status = .initial <;>
      by_cases hinitial' : e'.source.status = .initial
    · rw [hg.eq_root_of_initial (hg.ends e he).1 hinitial,
        hg.eq_root_of_initial (hg.ends e' he').1 hinitial']
    · simp [hinitial, hinitial'] at hbefore
    · simp [hinitial, hinitial'] at hbefore
    · simp only [hinitial, hinitial', if_false, Option.some.injEq] at hbefore
      apply Vertex.eq_of_landing_eq hinitial hinitial'
      rw [Vertex.landing, Vertex.landing, hconsumed, hbefore, hlayered.source, hlayered'.source]
  calc e = ⟨e.source, e.target, e.label⟩ := rfl
    _ = ⟨e'.source, e'.target, e'.label⟩ := by rw [hsource, htarget, hlabel]

/-- The vertices but the root are those that edges lead to. -/
theorem Trimmed.mem_erase_root_iff (hroot : g.root.status = .initial) (hvertices : g.vertices.Nodup)
    {v : Vertex Text} : v ∈ g.vertices.erase g.root ↔ ∃ e ∈ g.edges, e.target = v := by
  rw [hvertices.mem_erase_iff]
  constructor
  · rintro ⟨hne, hv⟩
    obtain rfl | ⟨w, -, e, he, -, rfl⟩ :=
      (Relation.ReflTransGen.cases_tail_iff _ _ _).mp (hg.reached v hv)
    · exact absurd rfl hne
    · exact ⟨e, he, rfl⟩
  · rintro ⟨e, he, rfl⟩
    refine ⟨fun heq => ?_, (hg.ends e he).2⟩
    exact hg.not_adjacent_initial hroot ⟨e, he, rfl, heq⟩

/-- A trimmed graph has a vertex for each landing of its edges, and its root. -/
theorem Trimmed.length_vertices (hroot : g.root.status = .initial) (hvertices : g.vertices.Nodup)
    {landings : List Landing}
    (hlandings : ∀ landing, landing ∈ landings ↔ ∃ e ∈ g.edges, e.target.landing = landing) :
    g.vertices.length = 1 + landings.toFinset.card := by
  have hothers : (g.vertices.erase g.root).length = landings.toFinset.card := by
    refine length_eq_card_toFinset Vertex.landing (hvertices.erase _) ?_ ?_
    · intro v hv w hw
      obtain ⟨e, he, rfl⟩ := (hg.mem_erase_root_iff hroot hvertices).mp hv
      obtain ⟨f, hf, rfl⟩ := (hg.mem_erase_root_iff hroot hvertices).mp hw
      exact Vertex.eq_of_landing_eq (hg.layered e he).target_status_ne
        (hg.layered f hf).target_status_ne
    · intro landing
      simp only [hlandings, hg.mem_erase_root_iff hroot hvertices, exists_exists_and_eq_and]
  have hpos := List.length_pos_of_mem hg.root_mem
  rw [← hothers, List.length_erase_of_mem hg.root_mem]
  omega

/-- A trimmed graph has an edge for each crossing. -/
theorem Trimmed.length_edges (hedges : g.edges.Nodup) {crossings : List Crossing}
    (hcrossings : ∀ crossing, crossing ∈ crossings ↔ ∃ e ∈ g.edges, e.crossing = crossing) :
    g.edges.length = crossings.toFinset.card :=
  length_eq_card_toFinset Edge.crossing hedges
    (fun _ he _ hf => hg.eq_of_crossing_eq he hf) hcrossings

/-- A trimmed graph has a terminal vertex for each closed landing. -/
theorem Trimmed.length_terminals (hroot : g.root.status = .initial) (hvertices : g.vertices.Nodup)
    {endings : List (Text × Text)}
    (hendings : ∀ consumed fragment, (consumed, fragment) ∈ endings ↔
      ∃ e ∈ g.edges, e.target.landing = ⟨consumed, fragment, true⟩) :
    g.terminals.length = endings.toFinset.card := by
  have hopen {v : Vertex Text} (hv : v.isTerminal = true) : v.status ≠ .initial := by
    intro hinitial
    simp [Vertex.isTerminal, hinitial] at hv
  refine length_eq_card_toFinset (fun v => (v.consumed, v.emitted)) (hvertices.filter _) ?_ ?_
  · intro v hv w hw h
    have hv : v.isTerminal = true := (List.mem_filter.mp hv).2
    have hw : w.isTerminal = true := (List.mem_filter.mp hw).2
    obtain ⟨hconsumed, hemitted⟩ := Prod.mk.inj h
    apply Vertex.eq_of_landing_eq (hopen hv) (hopen hw)
    rw [Vertex.landing, Vertex.landing, hconsumed, hemitted, hv, hw]
  · rintro ⟨consumed, fragment⟩
    rw [hendings]
    constructor
    · rintro ⟨e, he, hlanding⟩
      obtain ⟨rfl, rfl, hterminal⟩ := Landing.mk.inj hlanding
      exact ⟨e.target, List.mem_filter.mpr ⟨(hg.ends e he).2, hterminal⟩, rfl⟩
    · rintro ⟨v, hv, hpair⟩
      obtain ⟨hmem, hterminal⟩ := List.mem_filter.mp hv
      have hne : v ≠ g.root := fun heq => hopen hterminal (heq ▸ hroot)
      obtain ⟨e, he, rfl⟩ := (hg.mem_erase_root_iff hroot hvertices).mp
        (hvertices.mem_erase_iff.mpr ⟨hne, hmem⟩)
      obtain ⟨rfl, rfl⟩ := Prod.mk.inj hpair
      exact ⟨e, he, congrArg (Landing.mk _ _) hterminal⟩

end Trimmed

/-- The size of a graph of rules that can be aligned. -/
theorem stats_buildRules {rules : List Rule} (halign : ∀ rule ∈ rules, rule.Alignable) :
    (empty.buildRules rules : Graph Text).stats =
      ⟨1 + (rules.flatMap Rule.landings).toFinset.card,
        (rules.flatMap Rule.crossings).toFinset.card,
        (rules.filterMap Rule.ending?).toFinset.card⟩ := by
  have hthreads : Threads empty (empty.buildRules rules : Graph Text) rules rules :=
    ⟨rfl, fun rule => (and_iff_left_of_imp (halign rule)).symm⟩
  have hg := trimmed_of_threads hthreads
  have hroot : (empty.buildRules rules : Graph Text).root.status = .initial :=
    congrArg Vertex.status hthreads.root
  have hvertices : (empty.buildRules rules : Graph Text).vertices.Nodup :=
    nodup_vertices_buildRules (List.nodup_singleton _) rules
  have hendings (consumed fragment : Text) : (consumed, fragment) ∈ rules.filterMap Rule.ending? ↔
      ∃ e ∈ (empty.buildRules rules).edges, e.target.landing = ⟨consumed, fragment, true⟩ := by
    simp only [← mem_flatMap_landings_iff halign, List.mem_flatMap, Rule.mem_landings_closed_iff,
      List.mem_filterMap]
  rw [stats, hg.length_vertices hroot hvertices fun _ => mem_flatMap_landings_iff halign,
    hg.length_edges (nodup_edges_buildRules List.nodup_nil rules)
      fun _ => mem_flatMap_crossings_iff halign,
    hg.length_terminals hroot hvertices hendings]

/-- Valid rules over texts compile. The graph of rules that compile has a vertex for each landing
of the rules and its root, an edge for each crossing, and a terminal vertex for each input with a
last fragment of a rule that closes. -/
theorem stats_of_compile? (declared : List Datum) :
    ((∀ rule ∈ declared, rule.materialised.validate.isValid = true ∧ rule.IsTextual) →
      ∃ g, compile? declared = .ok g) ∧
    ∀ g, compile? declared = .ok g →
      ∃ rules, declared.mapM Datum.textRule? = some rules ∧
        g.stats = ⟨1 + (rules.flatMap Rule.landings).toFinset.card,
          (rules.flatMap Rule.crossings).toFinset.card,
          (rules.filterMap Rule.ending?).toFinset.card⟩ := by
  refine ⟨exists_compile?_of_isValid, fun g hcompile => ?_⟩
  obtain ⟨rules, hrules, hthreads⟩ := exists_threads_of_compile? hcompile
  refine ⟨rules, hrules, ?_⟩
  rw [hthreads.graph, stats_buildRules fun rule hrule => hthreads.alignable hrule]

/-- Rules with two vertices of one display form, two that differ only in whether a rule ends there,
and one that two edges lead to; the last rule ends without closing. -/
def colons : List Datum :=
  [.list [.text "a", .tuple [.text ":", .text "b"]],
    .list [.tuple [.text "a", .text ":b"], .text "c"],
    .list [.tuple [.text "a", .text ":b"]],
    .list [.text "ac"],
    .list [.text "a", .text ""]]

theorem stats_of_compile?_colons :
    (⟨"a:", "b", .terminal⟩ : Vertex Text).signature =
        (⟨"a", ":b", .terminal⟩ : Vertex Text).signature ∧
      ∃ g, compile? colons = .ok g ∧ g.stats = ⟨1 + 5, 6, 3⟩ := by
  obtain ⟨g, hg⟩ : ∃ g, compile? colons = .ok g := ⟨_, rfl⟩
  obtain ⟨rules, hrules, hstats⟩ := (stats_of_compile? colons).2 g hg
  refine ⟨rfl, g, hg, ?_⟩
  cases hrules
  rw [hstats]
  decide

end Graph

end RuleTransducer
